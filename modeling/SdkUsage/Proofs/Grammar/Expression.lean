/-
Rules for expressions read the nodes of their value, and do the same under any bounds that
exceed the number of tokens to come. One lemma for each rule of the grammar, in its order; a
lemma follows the text of its rule and adds how the parts of the new node are made of what was
read.

The number `n` of `Tracked` is how many tokens the rules to come back to are known to handle.
Rules that are reached through a token go up to `n` tokens, and the levels of operators up to
`n + 1`: they pass a token before they come back to anything. So `expression_tracked`, which
ties the knot, needs one more in its bound for each token.
-/
import SdkUsage.Grammar.Expression
import SdkUsage.Proofs.Grammar.Supply

namespace SdkUsage.Grammar

open SdkUsage.Tree

variable {α : Type} {t : Token} {x y : Parse Expr} {cause : SyntaxError.Cause} {last : Token → Bool}
  {separator : String} {gain : Gain α} {item item' : Parse α}

/-! ## Errors of literals -/

/-- What can be wrong with an escape sequence. -/
def escapeCauses : List SyntaxError.Cause := [.invalidCodePoint, .invalidEscape]

theorem codePoint_cause {count : Nat} {rest : List Char} (h : codePoint count rest = .error cause) :
    cause ∈ escapeCauses := by
  unfold codePoint at h
  dsimp only at h
  split at h
  · split at h
    · cases h
    · cases h
      exact .head _
  · cases h
    exact .tail _ (.head _)

/-- An escape sequence is a code point, or it is known, and no backslash is behind its first
character. -/
theorem escapeAt_cons (c : Char) (cs : List Char) :
    (∃ count, escapeAt (c :: cs) = codePoint count cs) ∨
      ∃ text n, escapeAt (c :: cs) = .ok ⟨text, n + 1⟩ ∧ ∀ d ∈ cs.take n, d ≠ '\\' := by
  unfold escapeAt
  dsimp only
  split
  · exact .inr ⟨_, 0, rfl, by simp⟩
  split
  · cases hline : decide (cs.head? = some '\n') with
    | false =>
      rw [if_neg (by simpa using hline)]
      exact .inr ⟨_, 0, rfl, by simp⟩
    | true =>
      rw [decide_eq_true_eq] at hline
      rw [if_pos hline]
      refine .inr ⟨_, 1, rfl, fun d hd => ?_⟩
      cases cs with
      | nil => cases hd
      | cons e es =>
        cases hline
        cases List.mem_singleton.1 hd
        decide
  split
  · exact .inr ⟨_, 0, rfl, by simp⟩
  split
  · next octal =>
    have digits : ((c :: cs).take 3).takeWhile isOctalDigit =
        c :: (cs.take 2).takeWhile isOctalDigit := by simp [octal]
    have front := List.prefix_iff_eq_take.1
      ((List.takeWhile_prefix isOctalDigit).trans (List.take_prefix 2 cs))
    refine .inr ⟨_, ((cs.take 2).takeWhile isOctalDigit).length, by rw [digits]; rfl, fun d hd => ?_⟩
    rw [← front] at hd
    rintro rfl
    have digit := List.all_eq_true.1 List.all_takeWhile _ hd
    revert digit
    decide
  split
  · exact .inl ⟨2, rfl⟩
  split
  · exact .inl ⟨4, rfl⟩
  split
  · exact .inl ⟨8, rfl⟩
  · exact .inr ⟨_, 0, rfl, by simp⟩

theorem escapeAt_cause {rest : List Char} (h : escapeAt rest = .error cause) :
    cause ∈ escapeCauses := by
  cases rest with
  | nil => cases h
  | cons c cs =>
    rcases escapeAt_cons c cs with ⟨count, heq⟩ | ⟨_, _, heq, -⟩
    · exact codePoint_cause (heq.symm.trans h)
    · cases heq.symm.trans h

theorem map_eq_error {ε β : Type} {f : α → β} {x : Except ε α} {error : ε}
    (h : x.map f = .error error) : x = .error error := by
  cases x with
  | error => cases h; rfl
  | ok => cases h

theorem decodeFrom_cause {skip : Nat} {text : List Char} (h : decodeFrom skip text = .error cause) :
    cause ∈ escapeCauses := by
  fun_induction decodeFrom skip text with
  | case1 => cases h
  | case2 _ _ _ ih => exact ih h
  | case3 cs cause' he =>
    cases h
    exact escapeAt_cause he
  | case4 cs escape _ ih => exact ih (map_eq_error h)
  | case5 c cs _ ih => exact ih (map_eq_error h)

theorem literal_cause {text : List Char} (h : literal text = .error cause) : cause ≠ .stalled := by
  unfold literal at h
  dsimp only at h
  split_ifs at h
  · cases h
    nofun
  · rintro rfl
    have cause := decodeFrom_cause (map_eq_error h)
    revert cause
    decide

namespace Recursion

/-- The rules to come back to do the same and read expressions, for up to `n` tokens, and so many
rounds are allowed. -/
structure Tracked (watch : Prop) (g g' : Recursion) (n : Nat) : Prop where
  bound : n ≤ g.bound
  bound' : n ≤ g'.bound
  expr : ∀ level, ReadsExpr watch n (g.expr level) (g'.expr level)

variable {watch : Prop} {g g' : Recursion} {n : Nat}

theorem Tracked.back (h : Tracked watch g g' (n + 1)) : Tracked watch g g' n :=
  ⟨Nat.le_of_succ_le h.bound, Nat.le_of_succ_le h.bound', fun level => (h.expr level).back⟩

section

variable (hg : Tracked watch g g' n)

include hg

theorem Tracked.many {x y : Parse (Option α)} (h : Reads watch n x y gain.maybe) :
    Reads watch n (many x g.bound) (Grammar.many y g'.bound) (gain.each false) :=
  h.many hg.bound hg.bound'

theorem Tracked.following (hw : (separator == "") = false) (h : Reads watch n item item' gain) :
    Reads watch n (following separator last item g.bound)
      (Grammar.following separator last item' g'.bound) (gain.each false) :=
  h.following hw hg.bound hg.bound'

theorem Tracked.separated (hw : (separator == "") = false) (h : Reads watch n item item' gain)
    (hp : ∀ v, gain.passed v = true) :
    Reads watch n (separated separator last item g.bound)
      (Grammar.separated separator last item' g'.bound) (gain.each true) :=
  h.separated hw hp hg.bound hg.bound'

/-- Expressions with separators between them. -/
theorem Tracked.names {passed : α → Bool} {fact : α → Prop} (hw : (separator == "") = false)
    (h : Reads watch n item item' (.tokens passed fact)) (hp : ∀ v, passed v = true) :
    Reads watch n (Grammar.separated separator last item g.bound)
      (Grammar.separated separator last item' g'.bound)
      (.tokens (fun _ => true) fun vs => ∀ v ∈ vs, fact v) :=
  Gain.each_tokens passed fact true ▸ hg.separated hw h hp

theorem Tracked.exprs {item item' : Parse Expr} (h : ReadsExpr watch n item item') :
    Reads watch n (Grammar.following "," last item g.bound)
      (Grammar.following "," last item' g'.bound) (.of (fun _ => false) exprNodes) :=
  (hg.following rfl h).nodes flatMap_expr

/-! ## Rules that go back to the loosest level -/

theorem test_reads : ReadsExpr watch n g.test g'.test := (hg.expr .conditional).nested

theorem namedTest_reads : ReadsExpr watch n g.namedTest g'.namedTest := by
  refine .on fun t => .here ((test_reads hg).bind fun target _ => .on fun u => .word ?_)
  split
  · exact .done rfl rfl
  next hu =>
  cases target with
  | name =>
    refine .advance_word (not_not.1 hu) rfl ((test_reads hg).bind fun value _ => ?_)
    exact .exprNode (fun s => .named s _ value) fun _ _ => ⟨rfl, .refl _, trivial⟩
  | _ => exact .failAt_expr nofun

theorem starOr_reads (h : ReadsExpr watch n x y) :
    ReadsExpr watch n (g.starOr x) (g'.starOr y) := by
  refine .on fun t => .here (.accept rfl ((hg.expr .bitOr).nested.bind fun value _ => ?_) h.takes)
  exact .exprNode (fun s => .starred s value) fun _ _ => ⟨rfl, .refl _, trivial⟩

theorem tupleOf_reads (h : ReadsExpr watch n x y) :
    ReadsExpr watch n (g.tupleOf x) (g'.tupleOf y) := by
  refine .on fun t => .here (h.bind fun first _ => .on fun u => .word ?_)
  split
  · exact .done rfl rfl
  · refine (hg.exprs h).bind fun rest _ => ?_
    exact .exprNode (fun s => .tuple s (first :: rest)) fun _ _ => ⟨rfl, .refl _, trivial⟩

theorem exprList_reads : ReadsExpr watch n g.exprList g'.exprList :=
  tupleOf_reads hg (starOr_reads hg (test_reads hg))

theorem targetList_reads : ReadsExpr watch n g.targetList g'.targetList :=
  tupleOf_reads hg (starOr_reads hg (hg.expr .bitOr))

theorem yieldExpr_reads : ReadsExpr watch n g.yieldExpr g'.yieldExpr := by
  refine .on fun t => .here (.expect rfl (.accept rfl ?_ (.on fun t => .token ?_)))
  · refine (test_reads hg).bind fun value _ => ?_
    exact .exprNode (fun s => .yield s (some value) true) fun _ _ => ⟨rfl, .refl _, trivial⟩
  split
  · refine (exprList_reads hg).bind fun value _ => ?_
    exact .exprNode (fun s => .yield s (some value) false) fun _ _ => ⟨rfl, .refl _, trivial⟩
  · exact .exprNode (fun s => .yield s none false) fun _ _ => ⟨rfl, .refl _, trivial⟩

end

/-- A condition of a comprehension, if one follows. -/
def condition? (g : Recursion) : Parse (Option Expr) := do
  if ← accept "if" then return some (← g.expr .disjunction)
  return none

section

variable (hg : Tracked watch g g' n)

include hg

theorem condition_reads : Reads watch n g.condition? g'.condition? Gain.expr.maybe :=
  .on fun _ => .accept rfl ((hg.expr .disjunction).bind fun _ _ => .found rfl fun _ => trivial)
    .nothing

theorem clause_reads :
    Reads watch n g.clause? g'.clause? (Gain.exprs Comprehension.children).maybe := by
  refine .on fun t => .token ?_
  split
  · exact .nothing
  refine .here (.accept_any rfl fun isAsync => .expect rfl ?_)
  refine (targetList_reads hg).bind fun target _ => .expect rfl ?_
  refine (hg.expr .disjunction).bind fun iter _ => ?_
  refine (hg.many (condition_reads hg)).bind fun conditions _ => .spanSince fun _ => ?_
  refine .found ?_ fun _ => trivial
  have nodes : conditions.flatMap (fun e => [Node.expr e]) = exprNodes conditions :=
    flatMap_expr conditions
  simp [Gain.each, Gain.expr, Gain.of, Gain.exprs, Comprehension.children, nodes, exprNodes]

theorem clauses_reads : Reads watch n g.clauses g'.clauses
    (.of (fun _ => false) fun cs => exprNodes (cs.flatMap Comprehension.children)) :=
  (hg.many (clause_reads hg)).nodes fun _ => (exprNodes_flatMap _ _).symm

/-! ## Parameters -/

end

/-- A parameter, whose name is a name. -/
def paramGain : Gain (Param Expr) :=
  ⟨fun _ => true, fun p => exprNodes p.children, fun p => p.name.text ≠ "*"⟩

/-- The parameter in an item of a parameter list. -/
def ParamItem.param? : ParamItem → Option (Param Expr)
  | .positionalMark => none
  | .star param => param
  | .doubleStar param => some param
  | .plain param => some param

@[simp] theorem ParamItem.param?_star (p : Option (Param Expr)) : (star p).param? = p := rfl

@[simp] theorem ParamItem.param?_doubleStar (p : Param Expr) : (doubleStar p).param? = some p := rfl

@[simp] theorem ParamItem.param?_plain (p : Param Expr) : (plain p).param? = some p := rfl

/-- The expressions in an item of a parameter list. -/
def ParamItem.children (item : ParamItem) : List Expr := item.param?.toList.flatMap Param.children

/-- An item of a parameter list, in which the name of a parameter is a name. -/
def paramItemGain : Gain ParamItem :=
  ⟨fun _ => true, fun i => exprNodes i.children, fun i => ∀ p ∈ i.param?, p.name.text ≠ "*"⟩

theorem subperm_insert (as new : List α) {bs all : List α} (h : (as ++ bs).Subperm all) :
    (as ++ new ++ bs).Subperm (new ++ all) := by
  have moved : (as ++ new ++ bs).Perm (new ++ (as ++ bs)) := by
    rw [← List.append_assoc]
    exact List.perm_append_comm.append_right bs
  exact moved.subperm.trans ((List.Subperm.refl new).append h)

/-- Sorting parameters keeps them, apart from those that a later one of the
same kind replaces. -/
theorem sortParams_subperm (keywordOnly : Bool) (items : List ParamItem) :
    (sortParams keywordOnly items).all.Subperm (items.flatMap (·.param?.toList)) := by
  induction items generalizing keywordOnly with
  | nil => exact .refl _
  | cons item items ih =>
    cases item with
    | positionalMark => exact ih keywordOnly
    | star param =>
      have rest := ih true
      simp only [sortParams, Parameters.all, List.flatMap_cons] at rest ⊢
      cases hv : (sortParams true items).vararg with
      | some v =>
        rw [hv] at rest
        exact rest.trans (List.sublist_append_right _ _).subperm
      | none =>
        rw [hv] at rest
        simp only [Option.toList_none, List.append_nil, List.append_assoc] at rest
        simpa [List.append_assoc] using subperm_insert _ param.toList rest
    | doubleStar param =>
      have rest := ih keywordOnly
      simp only [sortParams, Parameters.all, List.flatMap_cons] at rest ⊢
      cases hw : (sortParams keywordOnly items).kwarg with
      | some w =>
        rw [hw] at rest
        exact rest.trans (List.sublist_append_right _ _).subperm
      | none =>
        rw [hw] at rest
        simpa using subperm_insert _ [param] rest
    | plain param =>
      have rest := ih keywordOnly
      cases keywordOnly with
      | true =>
        simp only [sortParams, Parameters.all, List.flatMap_cons, if_true,
          List.append_assoc] at rest ⊢
        rw [← List.append_assoc] at rest
        simpa [List.append_assoc] using subperm_insert _ [param] rest
      | false =>
        simp only [sortParams, Parameters.all, List.flatMap_cons] at rest ⊢
        exact subperm_insert [] [param] rest

section

variable (hg : Tracked watch g g' n)

include hg

theorem param_reads (annotations : Bool) :
    Reads watch n (g.param annotations) (g'.param annotations) paramGain := by
  refine .on fun t => ident_reads.bind fun name hn => .on fun u => .token ?_
  split
  · next h =>
    have hu : u.word = ":" := by simpa [isWord] using (Bool.and_eq_true_iff.1 h).2
    refine .advance_word hu rfl ((test_reads hg).bind fun hint _ => ?_)
    exact .pure rfl (.refl _) fun hw => (hn hw).ne_star
  · exact .pure rfl (.refl _) fun hw => (hn hw).ne_star

theorem paramItem_reads (annotations : Bool) :
    Reads watch n (g.paramItem annotations) (g'.paramItem annotations) paramItemGain := by
  have param := param_reads hg annotations
  have named {p : Param Expr} (hn : p.name.text ≠ "*") : ∀ q ∈ some p, q.name.text ≠ "*" := by
    rintro _ ⟨⟩
    exact hn
  have covers (item : ParamItem) {p : Param Expr} (h : item.param? = some p) :
      Covers (exprNodes p.children) (paramItemGain.nodes item) := by
    simpa [paramItemGain, ParamItem.children, h] using Covers.refl _
  refine .on fun t => .accept rfl ?_ (.accept rfl (.on fun t => .kind ?_) (.accept rfl ?_ ?_))
  · exact .pure rfl (.refl _) (by rintro _ _ ⟨⟩)
  · split
    · exact param.bind fun p hn => .pure rfl (covers _ rfl) fun hw => named (hn hw)
    · exact .pure rfl (.refl _) (by rintro _ _ ⟨⟩)
  · exact param.bind fun p hn => .pure rfl (covers _ rfl) fun hw => named (hn hw)
  refine param.bind fun p hn => .accept rfl ?_ ?_
  · refine (test_reads hg).bind fun value _ => .pure rfl ?_ fun hw => named (hn hw)
    -- A default takes the place of the one there is, which is none.
    have : Covers (exprNodes (p.children ++ [value]))
        (exprNodes (p.annotation.toList ++ [value])) := by
      refine .of_exprs (List.Sublist.subperm ?_)
      exact (List.sublist_append_left _ _).append (.refl _)
    simpa [paramItemGain, paramGain, Gain.expr, Gain.of, ParamItem.children, Param.children,
      exprNodes] using this
  · exact .pure rfl (covers _ rfl) fun hw => named (hn hw)

theorem parameters_reads (close : String) (annotations : Bool) :
    Reads watch n (g.parameters close annotations) (g'.parameters close annotations)
      ⟨fun _ => false, fun ps => exprNodes ps.children, fun ps => ∀ p ∈ ps.all, p.name.text ≠ "*"⟩ := by
  refine .on fun t => .word ?_
  split
  · exact .pure rfl (.refl _) (by rintro _ _ ⟨⟩)
  refine (hg.separated rfl (paramItem_reads hg annotations) fun _ => rfl).bind fun items hn => ?_
  have kept := sortParams_subperm false items
  refine .pure rfl ?_ fun hw p hp => ?_
  · obtain ⟨ps, hp, hs⟩ := kept
    have children :
        (sortParams false items).children.Subperm (items.flatMap ParamItem.children) := by
      refine ⟨ps.flatMap Param.children, hp.flatMap_right _, ?_⟩
      have := hs.flatMap Param.children
      rwa [List.flatMap_assoc] at this
    have covers := Covers.of_exprs children
    rwa [exprNodes_flatMap] at covers
  · obtain ⟨item, hi, hp⟩ := List.mem_flatMap.1 (kept.subset hp)
    exact hn hw item hi p (Option.mem_toList.1 hp)

end

/-! ## Atoms -/

theorem literalToken_takes {span : Span} {b : Bool} {given : List Node}
    {f f' : List Char × StrKind → Parse α}
    (h : ∀ v, Takes watch n span b given (some t) (f v) (f' v) gain) :
    Takes watch n span b given (some t) (literalToken >>= f) (literalToken >>= f') gain := by
  intro source start mark hs hm p hp
  obtain rfl := hp.2 t rfl
  have token : Grammar.token p = .ok p.token p := rfl
  cases hl : literal p.token.text.toList with
  | ok v =>
    have run : literalToken p = .ok v p := by
      simp only [literalToken, Bind.bind, EStateM.bind, token, hl]
      rfl
    simp only [Bind.bind, EStateM.bind, run]
    exact h v source start mark hs hm hp
  | error cause =>
    have run : literalToken p = .error (.atSpan p.token.span cause) p := by
      simp only [literalToken, Bind.bind, EStateM.bind, token, hl]
      rfl
    simp only [Bind.bind, EStateM.bind, run]
    exact ⟨trivial, hp.1.refused (literal_cause hl)⟩

theorem joinString_reads (before : List Char × StrKind) :
    Reads watch n (joinString? before) (joinString? before)
      (.tokens Option.isSome fun _ => True) := by
  refine .on fun t => .kind ?_
  split
  · exact .pure rfl (.refl _) fun _ => trivial
  next hk =>
  refine literalToken_takes fun next => ?_
  split
  · exact .fail nofun
  · exact .advance (by rw [not_not.1 hk]; nofun) (.pure rfl (.refl _) fun _ => trivial)

theorem constantExpr_takes (value : Constant) (hk : t.kind ≠ .eof) :
    Takes watch n t.span false [] (some t) (constantExpr value) (constantExpr value) .expr :=
  .here (.advance hk (.exprNode (fun s => .constant s value) fun _ _ => ⟨rfl, .refl _, trivial⟩))

theorem nameExpr_reads : ReadsExpr watch n nameExpr nameExpr := by
  refine .on fun t => .here (ident_reads.bind fun name hn => ?_)
  exact .exprNode (fun s => .name s name.text) fun hw _ => ⟨rfl, .refl _, (hn hw).ne_star⟩

theorem numberExpr_takes (hk : t.kind ≠ .eof) :
    Takes watch n t.span false [] (some t) numberExpr numberExpr .expr :=
  .token (.advance hk (.exprNode (fun s => .number s t.text) fun _ _ => ⟨rfl, .refl _, trivial⟩))

section

variable (hg : Tracked watch g g' n)

include hg

theorem stringExpr_takes (hk : t.kind = .string) :
    Takes watch (n + 1) t.span false [] (some t) g.stringExpr g'.stringExpr .expr := by
  refine .here (literalToken_takes fun first => .advance (by rw [hk]; nofun) ?_)
  have joined : Reads watch n (repeated joinString? g.bound first)
      (repeated joinString? g'.bound first) (.tokens (fun _ => false) fun _ => True) :=
    .repeated (fun v _ => joinString_reads v) hg.bound hg.bound' fun _ => trivial
  refine joined.past fun value _ => ?_
  exact .exprNode (fun s => .str s _ _) fun _ _ => ⟨rfl, .refl _, trivial⟩

theorem element_reads : ReadsExpr watch n (g.starOr g.namedTest) (g'.starOr g'.namedTest) :=
  starOr_reads hg (namedTest_reads hg)

theorem parenExpr_takes (ht : t.word = "(") :
    Takes watch (n + 1) t.span false [] (some t) g.parenExpr g'.parenExpr .expr := by
  refine .here (.advance_word ht rfl (.accept rfl ?_ (.on fun u => .word ?_)))
  · exact .exprNode (fun s => .tuple s []) fun _ _ => ⟨rfl, .refl _, trivial⟩
  split
  · exact (yieldExpr_reads hg).past fun e _ => .expect rfl (.done rfl rfl)
  refine (element_reads hg).past fun first _ => .on fun v => .token ?_
  split
  · refine (clauses_reads hg).past fun clauses _ => .expect rfl ?_
    exact .exprNode (fun s => .generator s first clauses) fun _ _ => ⟨rfl, .refl _, trivial⟩
  refine .word ?_
  split
  · exact .expect rfl (.done rfl rfl)
  · refine (hg.exprs (element_reads hg)).past fun rest _ => .expect rfl ?_
    exact .exprNode (fun s => .tuple s (first :: rest)) fun _ _ => ⟨rfl, .refl _, trivial⟩

theorem listExpr_takes (ht : t.word = "[") :
    Takes watch (n + 1) t.span false [] (some t) g.listExpr g'.listExpr .expr := by
  refine .here (.advance_word ht rfl (.on fun u => .word ?_))
  split
  · exact .expect rfl (.exprNode (fun s => .list s []) fun _ _ => ⟨rfl, .refl _, trivial⟩)
  refine (element_reads hg).past fun first _ => .on fun v => .token ?_
  split
  · refine (clauses_reads hg).past fun clauses _ => .expect rfl ?_
    exact .exprNode (fun s => .listComp s first clauses) fun _ _ => ⟨rfl, .refl _, trivial⟩
  · refine (hg.exprs (element_reads hg)).past fun rest _ => .expect rfl ?_
    exact .exprNode (fun s => .list s (first :: rest)) fun _ _ => ⟨rfl, .refl _, trivial⟩

theorem dictItem_reads : Reads watch n g.dictItem g'.dictItem (.exprs DictItem.children) := by
  refine .on fun t => .accept rfl ((hg.expr .bitOr).bind fun value _ => .done rfl rfl) ?_
  refine (test_reads hg).bind fun key _ => .expect rfl ?_
  exact (test_reads hg).bind fun value _ => .done rfl rfl

theorem dictRest_takes (start : Span) (first : DictItem Expr) :
    Takes watch (n + 1) start true (exprNodes first.children) none (g.dictRest start first)
      (g'.dictRest start first) .expr := by
  have items : Reads watch n (following "," (isWord "\x7d") g.dictItem g.bound)
      (following "," (isWord "\x7d") g'.dictItem g'.bound)
      (.of (fun _ => false) fun is => exprNodes (is.flatMap DictItem.children)) :=
    (hg.following rfl (dictItem_reads hg)).nodes fun _ => (exprNodes_flatMap _ _).symm
  refine items.past fun rest _ => .expect rfl ?_
  refine .exprNode (fun s => .dict s (first :: rest)) fun _ _ => ⟨rfl, ?_, trivial⟩
  exact exprNodes_append _ _ ▸ .refl _

theorem braceExpr_takes (ht : t.word = "\x7b") :
    Takes watch (n + 1) t.span false [] (some t) g.braceExpr g'.braceExpr .expr := by
  refine .here (.advance_word ht rfl (.accept rfl ?_ (.on fun u => .word ?_)))
  · exact .exprNode (fun s => .dict s []) fun _ _ => ⟨rfl, .refl _, trivial⟩
  split
  · exact (dictItem_reads hg).past fun first _ => dictRest_takes hg t.span first
  refine (element_reads hg).past fun first _ => .accept rfl ?_ (.on fun v => .token ?_)
  · refine (test_reads hg).past fun value _ => .on fun v => .token ?_
    split
    · refine (clauses_reads hg).past fun clauses _ => .expect rfl ?_
      exact .exprNode (fun s => .dictComp s first value clauses) fun _ _ => ⟨rfl, .refl _, trivial⟩
    · exact (dictRest_takes hg t.span ⟨some first, value⟩).off
  split
  · refine (clauses_reads hg).past fun clauses _ => .expect rfl ?_
    exact .exprNode (fun s => .setComp s first clauses) fun _ _ => ⟨rfl, .refl _, trivial⟩
  · refine (hg.exprs (element_reads hg)).past fun rest _ => .expect rfl ?_
    exact .exprNode (fun s => .set s (first :: rest)) fun _ _ => ⟨rfl, .refl _, trivial⟩

theorem atom_reads : ReadsExpr watch (n + 1) g.atom g'.atom := by
  refine .on fun t => .token ?_
  have word : t.kind = .symbol → t.word = t.text := fun hk => by rw [Token.word, hk]
  cases hk : t.kind with
  | string => exact stringExpr_takes hg hk
  | number => exact numberExpr_takes (by rw [hk]; nofun)
  | ident =>
    dsimp only
    cases constantOf? t.text with
    | some value => exact constantExpr_takes value (by rw [hk]; nofun)
    | none => exact nameExpr_reads.takes
  | symbol =>
    dsimp only
    split
    · next ht => exact parenExpr_takes hg ((word hk).trans ht)
    split
    · next ht => exact listExpr_takes hg ((word hk).trans ht)
    split
    · next ht => exact braceExpr_takes hg ((word hk).trans ht)
    cases constantOf? t.text with
    | some value => exact constantExpr_takes value (by rw [hk]; nofun)
    | none => exact .fail nofun
  | newline | indent | dedent | eof => exact .fail nofun

end

/-! ## Calls, subscripts and members -/

/-- The value of an argument. -/
def Argument.value : Argument → Expr
  | .positional e => e
  | .keyword k => k.value

theorem arguments_perm (arguments : List Argument) :
    (positionals arguments ++ (keywordsOf arguments).map (·.value)).Perm
      (arguments.map Argument.value) := by
  induction arguments with
  | nil => exact .refl _
  | cons a arguments ih =>
    cases a with
    | positional value => exact ih.cons value
    | keyword k => exact List.perm_middle.trans (ih.cons k.value)

section

variable (hg : Tracked watch g g' n)

include hg

theorem argument_reads : Reads watch n g.argument g'.argument
    (.of (fun _ => true) fun a => [.expr a.value]) := by
  refine .on fun t => .here (.accept rfl ?_ (.accept rfl ?_ ?_))
  · refine (test_reads hg).bind fun value _ => ?_
    exact .expr (fun s => .starred s value) (fun _ _ => ⟨rfl, .refl _, trivial⟩) fun s => .done rfl rfl
  · exact (test_reads hg).bind fun value _ => .spanSince fun _ => .done rfl rfl
  refine (namedTest_reads hg).bind fun e _ => .on fun u => .token ?_
  split
  · next hu _ =>
    -- What looked like an expression is the name of a keyword.
    have hu : u.word = "=" := by simpa [isWord] using hu
    refine .advance_word hu rfl ((test_reads hg).bind fun value _ => .spanSince fun _ => ?_)
    exact .pure rfl (.of_exprs (List.sublist_cons_self _ [value]).subperm) fun _ => trivial
  refine .token ?_
  split
  · refine (clauses_reads hg).bind fun clauses _ => ?_
    exact .expr (fun s => .generator s _ clauses) (fun _ _ => ⟨rfl, .refl _, trivial⟩) fun s => .done rfl rfl
  · exact .done rfl rfl

theorem arguments_reads : Reads watch n g.arguments g'.arguments
    (.exprs fun as => as.map Argument.value) := by
  refine .on fun t => .accept rfl (.done rfl rfl) ?_
  refine (hg.separated rfl (argument_reads hg) fun _ => rfl).bind fun as _ => .expect rfl ?_
  refine .done rfl ?_
  have nodes : as.flatMap (fun a => [Node.expr a.value]) = exprNodes (as.map Argument.value) := by
    rw [← List.map_eq_flatMap, exprNodes, List.map_map]
    rfl
  exact nodes

theorem sliceItem_reads : ReadsExpr watch n g.sliceItem g'.sliceItem := by
  have lower : Reads watch n
      (do if (← word) = ":" then return none
          return some (← g.namedTest))
      (do if (← word) = ":" then return none
          return some (← g'.namedTest)) Gain.expr.maybe := by
    refine .on fun t => .word ?_
    split
    · exact .nothing
    · exact (namedTest_reads hg).bind fun e _ => .found rfl fun _ => trivial
  have upper : Reads watch n
      (do if [":", "]", ","].contains (← word) then return none
          return some (← g.test))
      (do if [":", "]", ","].contains (← word) then return none
          return some (← g'.test)) Gain.expr.maybe := by
    refine .on fun t => .word ?_
    split
    · exact .nothing
    · exact (test_reads hg).bind fun e _ => .found rfl fun _ => trivial
  have step : Reads watch n
      (do if ← accept ":" then
            if ["]", ","].contains (← word) then return none
            return some (← g.test)
          return none)
      (do if ← accept ":" then
            if ["]", ","].contains (← word) then return none
            return some (← g'.test)
          return none) Gain.expr.maybe := by
    refine .on fun t => .accept rfl (.on fun u => .word ?_) .nothing
    split
    · exact .nothing
    · exact (test_reads hg).bind fun e _ => .found rfl fun _ => trivial
  refine .on fun t => .here (lower.bind fun lower _ => .on fun u => .token ?_)
  split
  · exact .done rfl rfl
  · refine .expect rfl (upper.bind fun upper _ => step.bind fun step _ => ?_)
    rw [Bool.or_true, Bool.or_true]
    refine .exprNode (fun s => .slice s _ upper step) fun _ _ => ⟨rfl, ?_, trivial⟩
    simp [Expr.children, exprNodes_append, Gain.maybe, Gain.expr, Gain.of, flatMap_expr, Covers.refl]

theorem subscriptIndex_reads : ReadsExpr watch n g.subscriptIndex g'.subscriptIndex := by
  refine .on fun t => .here ((sliceItem_reads hg).bind fun first _ => .on fun u => .word ?_)
  split
  · exact .done rfl rfl
  · refine (hg.exprs (sliceItem_reads hg)).bind fun rest _ => ?_
    exact .exprNode (fun s => .tuple s (first :: rest)) fun _ _ => ⟨rfl, .refl _, trivial⟩

theorem trailer_takes (start : Span) (e : Expr) :
    Takes watch n start false [.expr e] none (g.trailer? start e) (g'.trailer? start e)
      (.of Option.isSome fun o => [.expr (o.getD e)]) := by
  refine .accept rfl ?_ (.accept rfl ?_ (.accept rfl ?_ (.done rfl rfl)))
  · refine ident_reads.bind fun attr _ => ?_
    exact .expr (fun s => .member s e attr) (fun _ _ => ⟨rfl, .refl _, trivial⟩) fun s => .done rfl rfl
  · refine (arguments_reads hg).bind fun as _ => ?_
    have covers := Covers.of_exprs ((arguments_perm as).cons e).subperm
    exact .expr (fun s => .call s e (positionals as) (keywordsOf as))
      (fun _ _ => ⟨rfl, covers, trivial⟩) fun s => .done rfl rfl
  · refine (subscriptIndex_reads hg).bind fun index _ => .expect rfl ?_
    exact .expr (fun s => .subscript s e index) (fun _ _ => ⟨rfl, .refl _, trivial⟩) fun s => .done rfl rfl

theorem primary_reads : ReadsExpr watch (n + 1) g.primary g'.primary := by
  refine .on fun t => .here ((atom_reads hg).bind fun atom _ => ?_)
  exact .repeated (fun e => trailer_takes hg t.span e) hg.bound hg.bound' atom

/-! ## Operators, from the tightest to the loosest -/

theorem awaitExpr_reads : ReadsExpr watch (n + 1) g.awaitExpr g'.awaitExpr := by
  have primary := primary_reads hg
  refine .on fun t => .here (.accept rfl (primary.bind fun value _ => ?_) primary.takes)
  exact .exprNode (fun s => .await s value) fun _ _ => ⟨rfl, .refl _, trivial⟩

theorem power_reads : ReadsExpr watch (n + 1) g.power g'.power := by
  refine .on fun t => .here ((awaitExpr_reads hg).bind fun base _ => .accept rfl ?_ (.done rfl rfl))
  refine (hg.expr .factor).nested.past fun exponent _ => ?_
  exact .exprNode (fun s => .binary s .pow base exponent) fun _ _ => ⟨rfl, .refl _, trivial⟩

theorem factor_reads : ReadsExpr watch (n + 1) g.factor g'.factor := by
  refine .on fun t => .here (.word ?_)
  cases hs : signOf? t.word with
  | some op =>
    have hk : t.kind ≠ .eof := fun hk => by rw [word_of_eof hk] at hs; cases hs
    refine .advance hk ((hg.expr .factor).nested.past fun operand _ => ?_)
    exact .exprNode (fun s => .unary s op operand) fun _ _ => ⟨rfl, .refl _, trivial⟩
  | none => exact (power_reads hg).takes

end

theorem operand_takes {ops : List (String × BinOp)} (h : ReadsExpr watch n x y) (start : Span)
    (lhs : Expr) :
    Takes watch n start false [.expr lhs] none (operand? ops x start lhs) (operand? ops y start lhs)
      (.of Option.isSome fun o => [.expr (o.getD lhs)]) := by
  refine .on fun t => .token ?_
  unfold operatorOf?
  by_cases hk : t.kind = .symbol
  · rw [if_pos hk]
    cases ops.lookup t.text with
    | some op =>
      refine .advance (by rw [hk]; nofun) (h.bind fun rhs _ => ?_)
      exact .expr (fun s => .binary s op lhs rhs) (fun _ _ => ⟨rfl, .refl _, trivial⟩) fun s => .done rfl rfl
    | none => exact .done rfl rfl
  · rw [if_neg hk]
    exact .done rfl rfl

theorem boolOperand_takes {text : String} {op : BoolOp} (hw : (text == "") = false)
    (h : ReadsExpr watch n x y) (start : Span) (lhs : Expr) :
    Takes watch n start false [.expr lhs] none (boolOperand? text op x start lhs)
      (boolOperand? text op y start lhs) (.of Option.isSome fun o => [.expr (o.getD lhs)]) := by
  refine .accept hw (h.bind fun rhs _ => ?_) (.done rfl rfl)
  exact .expr (fun s => .boolean s op lhs rhs) (fun _ _ => ⟨rfl, .refl _, trivial⟩) fun s => .done rfl rfl

theorem compareOp_reads : Reads watch n compareOp? compareOp? (.tokens Option.isSome fun _ => True) := by
  have found (op : CompareOp) {span : Span} {next : Option Token} :
      Takes watch n span true [] next (pure (some op)) (pure (some op))
        (.tokens Option.isSome fun _ => True) := .pure rfl (.refl _) fun _ => trivial
  refine .on fun t => .accept rfl (.expect rfl (found _))
    (.accept rfl (.accept rfl (found _) (found _)) (.on fun t => .word ?_))
  cases ho : compareOps.lookup t.word with
  | some op => exact .advance (fun hk => by rw [word_of_eof hk] at ho; cases ho) (found op)
  | none => exact .pure rfl (.refl _) fun _ => trivial

section

variable (hg : Tracked watch g g' n)

include hg

theorem binaryLevel_reads {ops : List (String × BinOp)} (h : ReadsExpr watch (n + 1) x y) :
    ReadsExpr watch (n + 1) (g.binaryLevel ops x) (g'.binaryLevel ops y) := by
  refine .on fun t => .here (h.bind fun first _ => ?_)
  exact .repeated (fun e => operand_takes h.back t.span e) hg.bound hg.bound' first

theorem term_reads : ReadsExpr watch (n + 1) g.term g'.term := binaryLevel_reads hg (factor_reads hg)

theorem sum_reads : ReadsExpr watch (n + 1) g.sum g'.sum := binaryLevel_reads hg (term_reads hg)

theorem shift_reads : ReadsExpr watch (n + 1) g.shift g'.shift := binaryLevel_reads hg (sum_reads hg)

theorem bitAnd_reads : ReadsExpr watch (n + 1) g.bitAnd g'.bitAnd :=
  binaryLevel_reads hg (shift_reads hg)

theorem bitXor_reads : ReadsExpr watch (n + 1) g.bitXor g'.bitXor :=
  binaryLevel_reads hg (bitAnd_reads hg)

theorem bitOr_reads : ReadsExpr watch (n + 1) g.bitOr g'.bitOr :=
  binaryLevel_reads hg (bitXor_reads hg)

theorem comparison_link_reads : Reads watch (n + 1) g.comparison? g'.comparison?
    (Gain.exprs fun l => [l.operand]).maybe := by
  refine .on fun t => compareOp_reads.bind fun op _ => ?_
  cases op with
  | some op => exact (bitOr_reads hg).bind fun e _ => .found rfl fun _ => trivial
  | none => exact .nothing

theorem comparison_reads : ReadsExpr watch (n + 1) g.comparison g'.comparison := by
  refine .on fun t => .here ((bitOr_reads hg).bind fun lhs _ => ?_)
  refine (hg.many (comparison_link_reads hg).back).past fun links _ => ?_
  split
  · next h =>
    rw [List.isEmpty_iff] at h
    subst h
    exact .done rfl rfl
  · refine .exprNode (fun s => .compare s lhs links) fun _ _ => ⟨rfl, ?_, trivial⟩
    have nodes : links.flatMap (fun l => exprNodes [l.operand])
        = exprNodes (links.map Comparison.operand) := by
      rw [← exprNodes_flatMap, ← List.map_eq_flatMap]
    show Covers (.expr lhs :: links.flatMap fun l => exprNodes [l.operand]) _
    rw [nodes]
    exact .refl _

theorem notTest_reads : ReadsExpr watch (n + 1) g.notTest g'.notTest := by
  refine .on fun t => .here (.accept rfl ?_ (comparison_reads hg).takes)
  refine (hg.expr .negation).nested.past fun operand _ => ?_
  exact .exprNode (fun s => .unary s .not operand) fun _ _ => ⟨rfl, .refl _, trivial⟩

theorem boolLevel_reads {text : String} {op : BoolOp} (hw : (text == "") = false)
    (h : ReadsExpr watch (n + 1) x y) :
    ReadsExpr watch (n + 1) (g.boolLevel text op x) (g'.boolLevel text op y) := by
  refine .on fun t => .here (h.bind fun first _ => ?_)
  exact .repeated (fun e => boolOperand_takes hw h.back t.span e) hg.bound hg.bound' first

theorem andTest_reads : ReadsExpr watch (n + 1) g.andTest g'.andTest :=
  boolLevel_reads hg rfl (notTest_reads hg)

theorem orTest_reads : ReadsExpr watch (n + 1) g.orTest g'.orTest :=
  boolLevel_reads hg rfl (andTest_reads hg)

theorem lambdaExpr_reads : ReadsExpr watch (n + 1) g.lambdaExpr g'.lambdaExpr := by
  refine .on fun t => .here (.expect rfl ?_)
  refine (parameters_reads hg _ _).past fun params hn => .expect rfl ?_
  refine (test_reads hg).past fun body _ => ?_
  refine .exprNode (fun s => .lambda s params body) fun hw _ => ⟨rfl, ?_, hn hw⟩
  exact exprNodes_append _ _ ▸ .refl _

theorem conditional_reads : ReadsExpr watch (n + 1) g.conditional g'.conditional := by
  refine .on fun t => .word ?_
  split
  · exact (lambdaExpr_reads hg).takes
  refine .here ((orTest_reads hg).bind fun body _ => .accept rfl ?_ (.done rfl rfl))
  refine (orTest_reads hg).bind fun test _ => .expect rfl ?_
  refine (test_reads hg).past fun orelse _ => ?_
  -- The body is read before the test and stands behind it.
  refine .exprNode (fun s => .conditional s test body orelse) fun _ _ => ⟨rfl, ?_, trivial⟩
  exact .of_exprs (List.Perm.swap body test [orelse]).subperm

/-- **A level of expressions comes back to others only after a token:** on `n + 1` tokens it
does what the others do on `n`. -/
theorem level_reads (level : Level) : ReadsExpr watch (n + 1) (g.level level) (g'.level level) := by
  cases level with
  | conditional => exact conditional_reads hg
  | disjunction => exact orTest_reads hg
  | negation => exact notTest_reads hg
  | bitOr => exact bitOr_reads hg
  | factor => exact factor_reads hg

end

end Recursion

/-- **A rule for expressions reads the nodes of its value, and is the same under all bounds that
exceed the number of tokens.** -/
theorem expression_tracked {watch : Prop} {n b b' : Nat} (hb : n ≤ b) (hb' : n ≤ b') :
    Recursion.Tracked watch ⟨b, expression b⟩ ⟨b', expression b'⟩ n := by
  induction n generalizing b b' with
  | zero => exact ⟨hb, hb', fun _ _ _ hp => absurd hp.left (Nat.not_lt_zero _)⟩
  | succ n ih =>
    obtain ⟨b, rfl⟩ : ∃ k, b = k + 1 := ⟨b - 1, by omega⟩
    obtain ⟨b', rfl⟩ : ∃ k, b' = k + 1 := ⟨b' - 1, by omega⟩
    have tracked := @ih b b' (by omega) (by omega)
    exact ⟨hb, hb', Recursion.level_reads tracked⟩

end SdkUsage.Grammar
