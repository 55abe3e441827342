/-
Rules for expressions follow themselves. One lemma for each rule of the grammar, in its
order; a lemma goes along the text of its rule and adds only why the new nodes of the two
runs look the same. `expression_followed` ties the knot as the grammar does, by induction
on the bound.
-/
import SdkUsage.Proofs.Grammar.Follow

namespace SdkUsage.Grammar

open SdkUsage.Tree

theorem startsExpression_placeless : Placeless startsExpression := by
  intro t u h
  have text := h.text
  unfold Token.isLayout at text
  unfold startsExpression
  rw [← h.kind]
  cases hk : t.kind with
  | ident | symbol =>
    rw [hk] at text
    simp only [text rfl]
  | string | number | newline | indent | dedent | eof => rfl

theorem startsClause_placeless : Placeless startsClause := by
  intro t u h
  unfold startsClause
  rw [h.word_eq]

theorem Placeless.not {look : Token → Bool} (h : Placeless look) : Placeless (!look ·) :=
  fun t u htu => congrArg (!·) (h t u htu)

namespace Recursion

/-- The rules to come back to follow themselves. -/
def Followed (g : Recursion) : Prop := ∀ c s level, Mirrors Expr.bare c s (g.expr level)

variable {g : Recursion} {c : Course} {s : Setting} {a b : Span} {α : Type} {next : Parse Expr}

section

variable (hg : g.Followed)

include hg

/-! ## Rules that go back to the loosest level -/

theorem nested_expr_mirrors (level : Level) : Mirrors Expr.bare c s (nested (g.expr level)) :=
  nested_mirrors (hg _ _ level)

theorem test_mirrors : Mirrors Expr.bare c s g.test := nested_expr_mirrors hg .conditional

theorem namedTest_mirrors : Mirrors Expr.bare c s g.namedTest := by
  refine Follows.here fun a b => (test_mirrors hg).next fun target target' ht => ?_
  refine .on fun t => .word (.ite (fun _ => .off (.done ht)) fun hw => ?_)
  have hw := not_not.1 hw
  cases target with
  | name site id =>
    obtain ⟨site', rfl, hs⟩ := Expr.bare_eq_name ht.symm
    refine .advance_same hw ⟨rfl, rfl⟩ ((test_mirrors hg).next fun v w hv => ?_)
    exact .expr fun st st' hst => by simp only [Expr.bare, hst, hs, hv]
  | _ => exact .failAt

theorem starOr_mirrors {x : Parse Expr} (h : Mirrors Expr.bare c s x) :
    Mirrors Expr.bare c s (g.starOr x) :=
  .here fun _ _ => .accept ⟨rfl, rfl⟩ ((nested_expr_mirrors hg .bitOr).next fun v w hv =>
    .expr fun st st' hst => by simp only [Expr.bare, hst, hv]) h

/-- An element of a tuple in parentheses, of a list or of a set. -/
theorem element_mirrors : Mirrors Expr.bare c s (g.starOr g.namedTest) :=
  starOr_mirrors hg (namedTest_mirrors hg)

omit hg in
theorem tupleOf_mirrors {x : Parse Expr} (h : Mirrors Expr.bare c s x) :
    Mirrors Expr.bare c s (g.tupleOf x) := by
  refine Follows.here fun a b => h.next fun first first' hf => ?_
  refine .on fun t => .word (.ite (fun _ => .off (.done hf)) fun _ => .off ?_)
  refine (following_mirrors ⟨rfl, rfl⟩ startsExpression_placeless.not h _).next fun rest rest' hr => ?_
  exact .expr fun st st' hst => by simp only [Expr.bare, bareExprs_eq, List.map_cons, hst, hf, hr]

theorem exprList_mirrors : Mirrors Expr.bare c s g.exprList :=
  tupleOf_mirrors (starOr_mirrors hg (test_mirrors hg))

theorem targetList_mirrors : Mirrors Expr.bare c s g.targetList :=
  tupleOf_mirrors (starOr_mirrors hg (hg c s .bitOr))

theorem yieldExpr_mirrors : Mirrors Expr.bare c s g.yieldExpr := by
  refine Follows.here fun a b => .expect ⟨rfl, rfl⟩ (.accept ⟨rfl, rfl⟩ ?_ (.on fun t =>
    .look startsExpression_placeless (fun _ => .off ?_) fun _ => .off ?_))
  · refine (test_mirrors hg).next fun v w hv => ?_
    exact .expr fun st st' hst => by simp only [Expr.bare, bareExpr?, hst, hv]
  · refine (exprList_mirrors hg).next fun v w hv => ?_
    exact .expr fun st st' hst => by simp only [Expr.bare, bareExpr?, hst, hv]
  · exact .expr fun st st' hst => by simp only [Expr.bare, bareExpr?, hst]

theorem clause_mirrors : Mirrors (maybe Comprehension.bare) c s g.clause? := by
  have condition : Mirrors (maybe Expr.bare) c s
      (do if ← accept "if" then return some (← g.expr .disjunction)
          return none) :=
    .accept ⟨rfl, rfl⟩ ((hg c s .disjunction).next fun _ _ => .some) (.done rfl)
  refine Follows.on fun t => .look startsClause_placeless.not (fun _ => .off (.done rfl)) fun _ =>
    .off (.here fun a b => ?_)
  refine (accept_mirrors ⟨rfl, rfl⟩).next fun isAsync isAsync' ha => .expect ⟨rfl, rfl⟩ ?_
  refine (targetList_mirrors hg).next fun target target' ht => .expect ⟨rfl, rfl⟩ ?_
  refine (hg c s .disjunction).next fun iter iter' hi => ?_
  refine (many_follows condition _).next fun conditions conditions' hc => .spanSince fun _ _ => ?_
  exact .some (by simp only [Comprehension.bare, bareExprs_eq, ht, hi, hc, ha])

theorem clauses_mirrors : Mirrors (listing Comprehension.bare) c s g.clauses :=
  many_follows (clause_mirrors hg) _

/-! ## Parameters -/

theorem param_mirrors (annotations : Bool) : Mirrors Param.bare c s (g.param annotations) := by
  have placeless : Placeless fun t => annotations && isWord ":" t := fun t u htu =>
    congrArg (annotations && ·) (isWord_placeless ":" t u htu)
  refine ident_mirrors.next fun name name' hn => .on fun t => .look placeless (fun h => ?_) fun _ =>
    .off (.done (by simp only [Param.bare, bareExpr?, hn]))
  have hw : t.word = ":" := by simpa [isWord] using (Bool.and_eq_true_iff.1 h).2
  refine .advance_same hw ⟨rfl, rfl⟩ ((test_mirrors hg).next fun v w hv => ?_)
  exact .done (by simp only [Param.bare, bareExpr?, hn, hv])

end

/-- An item of a parameter list without spans, with its numbers counted on. -/
def ParamItem.bare (shift : Shift) : ParamItem → ParamItem
  | .positionalMark => .positionalMark
  | .star param => .star (param.map (Param.bare shift))
  | .doubleStar param => .doubleStar (param.bare shift)
  | .plain param => .plain (param.bare shift)

theorem sortParams_bare (shift : Shift) (keywordOnly : Bool) (items : List ParamItem) :
    (sortParams keywordOnly items).bare shift =
      sortParams keywordOnly (items.map (ParamItem.bare shift)) := by
  induction items generalizing keywordOnly with
  | nil => rfl
  | cons item items ih =>
    cases item with
    | positionalMark => exact ih keywordOnly
    | star param =>
      simp only [List.map_cons, ParamItem.bare, sortParams, ← ih]
      rcases sortParams true items with ⟨args, vararg, keywordOnly, kwarg⟩
      cases vararg <;> cases param <;> rfl
    | doubleStar param =>
      simp only [List.map_cons, ParamItem.bare, sortParams, ← ih]
      rcases sortParams keywordOnly items with ⟨args, vararg, keywordOnly, kwarg⟩
      cases kwarg <;> rfl
    | plain param =>
      simp only [List.map_cons, ParamItem.bare, sortParams, ← ih]
      rcases sortParams keywordOnly items with ⟨args, vararg, keywordOnly, kwarg⟩
      split <;> rfl

section

variable (hg : g.Followed)

include hg

theorem paramItem_mirrors (annotations : Bool) :
    Mirrors ParamItem.bare c s (g.paramItem annotations) := by
  have param := param_mirrors (c := c) (s := s) hg annotations
  refine Follows.accept ⟨rfl, rfl⟩ (.done rfl) (.accept ⟨rfl, rfl⟩ ?_ (.accept ⟨rfl, rfl⟩ ?_ ?_))
  · refine .on fun t => .kind (.ite (fun _ => .off ?_) fun _ => .off (.done rfl))
    exact param.next fun p p' hp => .done (by simp only [ParamItem.bare, Option.map_some, hp])
  · exact param.next fun p p' hp => .done (by simp only [ParamItem.bare, hp])
  · refine param.next fun p p' hp => .accept ⟨rfl, rfl⟩ ((test_mirrors hg).next fun v w hv => .done ?_)
      (.done (by simp only [ParamItem.bare, hp]))
    obtain ⟨_, _, _⟩ := p
    obtain ⟨_, _, _⟩ := p'
    simp only [Param.bare, Param.mk.injEq] at hp
    simp only [ParamItem.bare, Param.bare, bareExpr?, hp, hv]

theorem parameters_mirrors (close : String) (annotations : Bool) :
    Mirrors Parameters.bare c s (g.parameters close annotations) := by
  refine Follows.on fun t => .word (.ite (fun _ => .off (.done rfl)) fun _ => .off ?_)
  refine (separated_mirrors ⟨rfl, rfl⟩ (isWord_placeless close) (paramItem_mirrors hg annotations) _).next
    fun items items' hi => ?_
  exact .done (by simp only [sortParams_bare, hi])

end

/-! ## Atoms -/

section

variable {t : Token}

theorem literalToken_next {post : α → α → Parser → Parser → Prop}
    {f f' : List Char × StrKind → Parse α} (hk : t.kind = .string)
    (h : ∀ v, Follows (On c s t) (f v) (f' v) post) :
    Follows (On c s t) (literalToken >>= f) (literalToken >>= f') post := by
  have read : Follows (On c s t) literalToken literalToken fun v w p q => v = w ∧ On c s t p q := by
    refine Follows.token fun u htu => ?_
    rw [← htu.text (by rw [Token.isLayout, hk])]
    cases literal t.text.toList with
    | ok value => exact .pure fun p q h => ⟨rfl, h⟩
    | error cause => exact .failAt
  refine read.bind fun v w => .assume fun _ _ hpq => ?_
  obtain ⟨rfl, hpq⟩ := hpq
  exact (h v).start hpq

/-- Passing a token that is neither layout nor a symbol. -/
theorem advance_written {post : α → α → Parser → Parser → Prop} {f f' : Unit → Parse α}
    (hl : t.isLayout = false) (hk : t.kind ≠ .symbol)
    (h : Follows (InStep c s) (f ()) (f' ()) post) :
    Follows (On c s t) (advance >>= f) (advance >>= f') post :=
  .advance hl (fun hs => absurd hs hk) h

theorem joinString_mirrors (before : List Char × StrKind) :
    Mirrors (maybe plainly) c s (joinString? before) := by
  refine Follows.on fun t => .kind (.ite (fun _ => .off (.done rfl)) fun hk => ?_)
  have hk := not_not.1 hk
  refine literalToken_next hk fun next => .ite (fun _ => .fail) fun _ => ?_
  exact advance_written (by rw [Token.isLayout, hk]) (by rw [hk]; decide) (.some rfl)

theorem stringExpr_follows (g : Recursion) (hk : t.kind = .string) :
    Follows (On c s t) g.stringExpr g.stringExpr (Ends false Expr.bare c s) := by
  refine Follows.here fun a b => literalToken_next hk fun first => ?_
  refine advance_written (by rw [Token.isLayout, hk]) (by rw [hk]; decide) ?_
  have joined : Mirrors plainly c s (repeated joinString? g.bound first) :=
    repeated_follows (fun v w hv => by cases hv; exact joinString_mirrors v) _ rfl
  refine joined.next fun v w hv => ?_
  cases hv
  exact .expr fun st st' hst => by simp only [Expr.bare, hst]

section

variable (hg : g.Followed)

include hg

theorem parenExpr_follows (ht : t.word = "(") :
    Follows (On c s t) g.parenExpr g.parenExpr (Ends false Expr.bare c s) := by
  refine Follows.here fun a b => .advance_open ht ⟨rfl, rfl⟩
    (.accept_close ⟨rfl, rfl⟩ ?_ (.on fun t => .word ?_))
  · exact .expr fun st st' hst => by simp only [Expr.bare, bareExprs, hst]
  refine .ite (fun _ => .off ?_) fun _ => .off ?_
  · exact (yieldExpr_mirrors hg).next fun e e' he => .expect_close ⟨rfl, rfl⟩ (.done he)
  refine (element_mirrors hg).next fun first first' hf => .on fun t =>
    .look startsClause_placeless (fun _ => .off ?_) fun _ =>
      .word (.ite (fun _ => .off (.expect_close ⟨rfl, rfl⟩ (.done hf))) fun _ => .off ?_)
  · refine (clauses_mirrors hg).next fun cs cs' hcs => .expect_close ⟨rfl, rfl⟩ ?_
    exact .expr fun st st' hst => by simp only [Expr.bare, bareClauses_eq, hst, hf, hcs]
  · refine (following_mirrors ⟨rfl, rfl⟩ (isWord_placeless ")") (element_mirrors hg) _).next
      fun rest rest' hr => .expect_close ⟨rfl, rfl⟩ ?_
    exact .expr fun st st' hst => by simp only [Expr.bare, bareExprs_eq, List.map_cons, hst, hf, hr]

theorem listExpr_follows (ht : t.word = "[") :
    Follows (On c s t) g.listExpr g.listExpr (Ends false Expr.bare c s) := by
  refine Follows.here fun a b => .advance_open ht ⟨rfl, rfl⟩ (.on fun t => .word ?_)
  refine .ite (fun _ => .off (.expect_close ⟨rfl, rfl⟩ ?_)) fun _ => .off ?_
  · exact .expr fun st st' hst => by simp only [Expr.bare, bareExprs, hst]
  refine (element_mirrors hg).next fun first first' hf => .on fun t =>
    .look startsClause_placeless (fun _ => .off ?_) fun _ => .off ?_
  · refine (clauses_mirrors hg).next fun cs cs' hcs => .expect_close ⟨rfl, rfl⟩ ?_
    exact .expr fun st st' hst => by simp only [Expr.bare, bareClauses_eq, hst, hf, hcs]
  · refine (following_mirrors ⟨rfl, rfl⟩ (isWord_placeless "]") (element_mirrors hg) _).next
      fun rest rest' hr => .expect_close ⟨rfl, rfl⟩ ?_
    exact .expr fun st st' hst => by simp only [Expr.bare, bareExprs_eq, List.map_cons, hst, hf, hr]

theorem dictItem_mirrors : Mirrors DictItem.bare c s g.dictItem := by
  refine Follows.accept ⟨rfl, rfl⟩ ?_ ?_
  · refine (hg c s .bitOr).next fun v w hv => ?_
    exact .done (by simp only [DictItem.bare, bareExpr?, hv])
  · refine (test_mirrors hg).next fun key key' hk => .expect ⟨rfl, rfl⟩ ?_
    refine (test_mirrors hg).next fun v w hv => ?_
    exact .done (by simp only [DictItem.bare, bareExpr?, hk, hv])

theorem dictRest_follows {first first' : DictItem Expr} (hf : first.bare c.shift = first'.bare {}) :
    Follows (InStep c (s.after "\x7b")) (g.dictRest a first) (g.dictRest b first')
      (Ends false Expr.bare c s) := by
  refine (following_mirrors ⟨rfl, rfl⟩ (isWord_placeless "\x7d") (dictItem_mirrors hg) _).next
    fun rest rest' hr => .expect_close ⟨rfl, rfl⟩ ?_
  exact .expr fun st st' hst => by simp only [Expr.bare, bareItems_eq, List.map_cons, hst, hf, hr]

theorem braceExpr_follows (ht : t.word = "\x7b") :
    Follows (On c s t) g.braceExpr g.braceExpr (Ends false Expr.bare c s) := by
  refine Follows.here fun a b => .advance_open ht ⟨rfl, rfl⟩
    (.accept_close ⟨rfl, rfl⟩ ?_ (.on fun t => .word ?_))
  · exact .expr fun st st' hst => by simp only [Expr.bare, bareItems, hst]
  refine .ite (fun _ => .off ?_) fun _ => .off ?_
  · exact (dictItem_mirrors hg).next fun first first' hf => dictRest_follows hg hf
  refine (element_mirrors hg).next fun first first' hf => .accept ⟨rfl, rfl⟩ ?_ ?_
  · refine (test_mirrors hg).next fun v w hv => .on fun t =>
      .look startsClause_placeless (fun _ => .off ?_) fun _ => .off ?_
    · refine (clauses_mirrors hg).next fun cs cs' hcs => .expect_close ⟨rfl, rfl⟩ ?_
      exact .expr fun st st' hst => by simp only [Expr.bare, bareClauses_eq, hst, hf, hv, hcs]
    · exact dictRest_follows hg (by simp only [DictItem.bare, bareExpr?, hf, hv])
  refine .on fun t => .look startsClause_placeless (fun _ => .off ?_) fun _ => .off ?_
  · refine (clauses_mirrors hg).next fun cs cs' hcs => .expect_close ⟨rfl, rfl⟩ ?_
    exact .expr fun st st' hst => by simp only [Expr.bare, bareClauses_eq, hst, hf, hcs]
  · refine (following_mirrors ⟨rfl, rfl⟩ (isWord_placeless "\x7d") (element_mirrors hg) _).next
      fun rest rest' hr => .expect_close ⟨rfl, rfl⟩ ?_
    exact .expr fun st st' hst => by simp only [Expr.bare, bareExprs_eq, List.map_cons, hst, hf, hr]

end

theorem constantOf_not_bracket {word : String} {value : Constant}
    (h : constantOf? word = some value) : Follows.isBracket word = false := by
  unfold constantOf? at h
  split_ifs at h <;> subst word <;> rfl

theorem constantExpr_follows (value : Constant) (hl : t.isLayout = false)
    (hb : t.kind = .symbol → Follows.isBracket t.word = false) :
    Follows (On c s t) (constantExpr value) (constantExpr value) (Ends false Expr.bare c s) :=
  .here fun _ _ => .advance hl hb (.expr fun st st' hst => by simp only [Expr.bare, hst])

theorem nameExpr_mirrors : Mirrors Expr.bare c s nameExpr := by
  refine Follows.here fun a b => ident_mirrors.next fun name name' hn => .expr fun st st' hst => ?_
  simp only [Ident.bare, Ident.mk.injEq, and_true] at hn
  simp only [Expr.bare, hst, hn]

theorem numberExpr_follows (hk : t.kind = .number) :
    Follows (On c s t) numberExpr numberExpr (Ends false Expr.bare c s) := by
  have written : t.isLayout = false := by rw [Token.isLayout, hk]
  refine Follows.token fun u htu => advance_written written (by rw [hk]; decide) ?_
  exact .expr fun st st' hst => by simp only [Expr.bare, hst, htu.text written]

end

theorem atom_mirrors (hg : g.Followed) : Mirrors Expr.bare c s g.atom := by
  refine Follows.on fun t => .token fun u htu => ?_
  have text := htu.text
  unfold Token.isLayout at text
  have word : t.kind = .symbol → t.word = t.text := fun hk => by rw [Token.word, hk]
  rw [← htu.kind]
  cases hk : t.kind with
  | string => exact stringExpr_follows g hk
  | number => exact numberExpr_follows hk
  | ident =>
    rw [hk] at text
    simp only [← text rfl]
    cases hc : constantOf? t.text with
    | some value =>
      exact constantExpr_follows value (by rw [Token.isLayout, hk]) fun hs => by cases hk.symm.trans hs
    | none => exact nameExpr_mirrors.off
  | symbol =>
    rw [hk] at text
    have word := word hk
    simp only [← text rfl]
    refine .ite (fun ht => parenExpr_follows hg (word.trans ht)) fun _ => ?_
    refine .ite (fun ht => listExpr_follows hg (word.trans ht)) fun _ => ?_
    refine .ite (fun ht => braceExpr_follows hg (word.trans ht)) fun _ => ?_
    cases hc : constantOf? t.text with
    | some value =>
      refine constantExpr_follows value (by rw [Token.isLayout, hk]) fun _ => ?_
      rw [word]
      exact constantOf_not_bracket hc
    | none => exact .fail
  | newline | indent | dedent | eof => exact .fail

/-! ## Calls, subscripts and members -/

/-- An argument without spans, with its numbers counted on. -/
def Argument.bare (shift : Shift) : Argument → Argument
  | .positional value => .positional (value.bare shift)
  | .keyword k => .keyword (k.bare shift)

theorem positionals_bare (shift : Shift) (arguments : List Argument) :
    (positionals arguments).map (Expr.bare shift) =
      positionals (arguments.map (Argument.bare shift)) := by
  induction arguments with
  | nil => rfl
  | cons argument arguments ih =>
    cases argument with
    | positional value => exact congrArg _ ih
    | keyword keyword => exact ih

theorem keywordsOf_bare (shift : Shift) (arguments : List Argument) :
    (keywordsOf arguments).map (Keyword.bare shift) =
      keywordsOf (arguments.map (Argument.bare shift)) := by
  induction arguments with
  | nil => rfl
  | cons argument arguments ih =>
    cases argument with
    | positional value => exact ih
    | keyword keyword => exact congrArg _ ih

section

variable (hg : g.Followed)

include hg

theorem argument_mirrors : Mirrors Argument.bare c s g.argument := by
  refine Follows.here fun a b => .accept ⟨rfl, rfl⟩ ?_ (.accept ⟨rfl, rfl⟩ ?_ ?_)
  · refine (test_mirrors hg).next fun v w hv => ?_
    exact .expr fun st st' hst => by simp only [Argument.bare, Expr.bare, hst, hv]
  · refine (test_mirrors hg).next fun v w hv => .spanSince fun _ _ => ?_
    exact .done (by simp only [Argument.bare, Keyword.bare, Option.map_none, hv])
  refine (namedTest_mirrors hg).next fun e e' he => .on fun t => .token fun u htu => ?_
  rw [← isWord_placeless "=" t u htu]
  split
  · next site id ht =>
    obtain ⟨site', rfl, hs⟩ := Expr.bare_eq_name he.symm
    have hw : t.word = "=" := by simpa [isWord] using ht
    rw [ht]
    refine .advance_same hw ⟨rfl, rfl⟩
      ((test_mirrors hg).next fun v w hv => .spanSince fun _ _ => .done ?_)
    simp only [Argument.bare, Keyword.bare, Option.map_some, Ident.bare, hv]
  · next other =>
    split
    · next site' id ht =>
      obtain ⟨site, rfl, hs⟩ := Expr.bare_eq_name he
      exact absurd ht (other site id rfl)
    · refine .look startsClause_placeless (fun _ => .off ?_) fun _ =>
        .off (.done (by simp only [Argument.bare, he]))
      refine (clauses_mirrors hg).next fun cs cs' hcs => .expr fun st st' hst => ?_
      simp only [Argument.bare, Expr.bare, bareClauses_eq, hst, he, hcs]

theorem arguments_follows :
    Follows (InStep c (s.after "(")) g.arguments g.arguments
      (Ends false (listing Argument.bare) c s) :=
  .accept_close ⟨rfl, rfl⟩ (.done rfl)
    ((separated_mirrors ⟨rfl, rfl⟩ (isWord_placeless ")") (argument_mirrors hg) _).next
    fun _ _ ha => .expect_close ⟨rfl, rfl⟩ (.done ha))

/-- A slice from its first colon on. -/
def sliceFrom (g : Recursion) (start : Span) (lower : Option Expr) : Parse Expr := do
  expect ":" "while parsing slice"
  let upper ← (do
    if [":", "]", ","].contains (← word) then return none
    return some (← g.test) : Parse (Option Expr))
  let step ← (do
    if ← accept ":" then
      if ["]", ","].contains (← word) then return none
      return some (← g.test)
    return none : Parse (Option Expr))
  return .slice (← exprSite start) lower upper step

theorem sliceFrom_follows (lower lower' : Option Expr)
    (hl : lower.map (Expr.bare c.shift) = lower'.map (Expr.bare {})) :
    Follows (InStep c s) (g.sliceFrom a lower) (g.sliceFrom b lower')
      (Ends false Expr.bare c s) := by
  have before (ends : List String) : Mirrors (maybe Expr.bare) c s
      (do if ends.contains (← word) then return none
          return some (← g.test)) :=
    .on fun t => .word (.ite (fun _ => .off (.done rfl)) fun _ =>
      .off ((test_mirrors hg).next fun _ _ => .some))
  have step : Mirrors (maybe Expr.bare) c s
      (do if ← accept ":" then
            if ["]", ","].contains (← word) then return none
            return some (← g.test)
          return none) :=
    .accept ⟨rfl, rfl⟩ (before ["]", ","]) (.done rfl)
  refine Follows.expect ⟨rfl, rfl⟩ ((before [":", "]", ","]).next fun upper upper' hu => ?_)
  refine step.next fun step step' hs => .expr fun st st' hst => ?_
  simp only [Expr.bare, bareExpr?_eq, hst, hl, hu, hs]

theorem sliceItem_mirrors : Mirrors Expr.bare c s g.sliceItem := by
  have lower : Mirrors (maybe Expr.bare) c s
      (do if (← word) = ":" then return none
          return some (← g.namedTest)) :=
    .on fun t => .word (.ite (fun _ => .off (.done rfl)) fun _ =>
      .off ((namedTest_mirrors hg).next fun _ _ => .some))
  refine Follows.here fun a b => lower.nextMaybe ?_ fun v w hv => .on fun t => .token fun u htu => ?_
  · exact .on fun t => .token fun u htu => .off (sliceFrom_follows hg none none rfl)
  · rw [← isWord_placeless ":" t u htu]
    cases isWord ":" t with
    | false => exact .off (.done hv)
    | true => exact .off (sliceFrom_follows hg (some v) (some w) (congrArg some hv))

theorem subscriptIndex_mirrors : Mirrors Expr.bare c s g.subscriptIndex := by
  refine Follows.here fun a b => (sliceItem_mirrors hg).next fun first first' hf => ?_
  refine .on fun t => .word (.ite (fun _ => .off (.done hf)) fun _ => .off ?_)
  refine (following_mirrors ⟨rfl, rfl⟩ (isWord_placeless "]") (sliceItem_mirrors hg) _).next
    fun rest rest' hr => ?_
  exact .expr fun st st' hst => by simp only [Expr.bare, bareExprs_eq, List.map_cons, hst, hf, hr]

theorem trailer_follows {e e' : Expr} (he : e.bare c.shift = e'.bare {}) :
    Follows (InStep c s) (g.trailer? a e) (g.trailer? b e') (Ends false (maybe Expr.bare) c s) := by
  refine Follows.accept ⟨rfl, rfl⟩ ?_ (.accept_bool ⟨rfl, rfl⟩ ?_
    (.accept_bool ⟨rfl, rfl⟩ ?_ (.done rfl)))
  · refine ident_mirrors.next fun attr attr' ha => .expr fun st st' hst => congrArg some ?_
    simp only [Expr.bare, hst, he, ha]
  · refine (arguments_follows hg).next fun as as' ha => .expr fun st st' hst => congrArg some ?_
    simp only [Expr.bare, bareExprs_eq, bareKeywords_eq, positionals_bare, keywordsOf_bare, hst, he,
      ha]
  · refine (subscriptIndex_mirrors hg).next fun index index' hi => .expect_close ⟨rfl, rfl⟩ ?_
    exact .expr fun st st' hst => congrArg some (by simp only [Expr.bare, hst, he, hi])

theorem primary_mirrors : Mirrors Expr.bare c s g.primary :=
  .here fun _ _ => (atom_mirrors hg).next fun _ _ ha =>
    repeated_follows (fun _ _ hv => trailer_follows hg hv) _ ha

/-! ## Operators, from the tightest to the loosest -/

theorem awaitExpr_mirrors : Mirrors Expr.bare c s g.awaitExpr :=
  .here fun _ _ => .accept ⟨rfl, rfl⟩ ((primary_mirrors hg).next fun v w hv =>
    .expr fun st st' hst => by simp only [Expr.bare, hst, hv]) (primary_mirrors hg)

theorem power_mirrors : Mirrors Expr.bare c s g.power := by
  refine Follows.here fun a b => (awaitExpr_mirrors hg).next fun base base' hb =>
    .accept ⟨rfl, rfl⟩ ((nested_expr_mirrors hg .factor).next fun v w hv => ?_) (.done hb)
  exact .expr fun st st' hst => by simp only [Expr.bare, hst, hb, hv]

end

theorem signOf_not_bracket {word : String} {op : UnaryOp} (h : signOf? word = some op) :
    word ≠ "" ∧ Follows.isBracket word = false := by
  unfold signOf? at h
  split_ifs at h <;> subst word <;> decide

theorem factor_mirrors (hg : g.Followed) : Mirrors Expr.bare c s g.factor := by
  refine Follows.here fun a b => .on fun t => .word ?_
  cases hs : signOf? t.word with
  | some op =>
    obtain ⟨hw, hb⟩ := signOf_not_bracket hs
    refine .advance (Token.isLayout_of_word_ne hw) (fun _ => hb) ?_
    refine (nested_expr_mirrors hg .factor).next fun v w hv => ?_
    exact .expr fun st st' hst => by simp only [Expr.bare, hst, hv]
  | none => exact .off (power_mirrors hg)

theorem mem_of_lookup {ops : List (String × α)} {text : String} {op : α}
    (h : ops.lookup text = some op) : (text, op) ∈ ops := by
  obtain ⟨l, r, rfl, _⟩ := List.lookup_eq_some_iff.1 h
  simp

theorem operand_follows {ops : List (String × BinOp)} {lhs lhs' : Expr}
    (ho : ∀ o ∈ ops, Follows.isBracket o.1 = false) (h : Mirrors Expr.bare c s next)
    (hl : lhs.bare c.shift = lhs'.bare {}) :
    Follows (InStep c s) (operand? ops next a lhs) (operand? ops next b lhs')
      (Ends false (maybe Expr.bare) c s) := by
  refine Follows.on fun t => .token fun u htu => ?_
  unfold operatorOf?
  rw [← htu.kind]
  by_cases hk : t.kind = .symbol
  · have written : t.isLayout = false := by rw [Token.isLayout, hk]
    have word : t.word = t.text := by rw [Token.word, hk]
    rw [if_pos hk, if_pos hk, ← htu.text written]
    cases hop : ops.lookup t.text with
    | some op =>
      refine .advance written (fun _ => by rw [word]; exact ho _ (mem_of_lookup hop)) ?_
      refine h.next fun v w hv => .expr fun st st' hst => congrArg some ?_
      simp only [Expr.bare, hst, hl, hv]
    | none => exact .off (.done rfl)
  · rw [if_neg hk, if_neg hk]
    exact .off (.done rfl)

theorem binaryLevel_mirrors {ops : List (String × BinOp)}
    (ho : ∀ o ∈ ops, Follows.isBracket o.1 = false) (h : Mirrors Expr.bare c s next) :
    Mirrors Expr.bare c s (g.binaryLevel ops next) :=
  .here fun _ _ => h.next fun _ _ hf => repeated_follows (fun _ _ => operand_follows ho h) _ hf

section

variable (hg : g.Followed)

include hg

theorem term_mirrors : Mirrors Expr.bare c s g.term :=
  binaryLevel_mirrors (by decide) (factor_mirrors hg)

theorem sum_mirrors : Mirrors Expr.bare c s g.sum :=
  binaryLevel_mirrors (by decide) (term_mirrors hg)

theorem shift_mirrors : Mirrors Expr.bare c s g.shift :=
  binaryLevel_mirrors (by decide) (sum_mirrors hg)

theorem bitAnd_mirrors : Mirrors Expr.bare c s g.bitAnd :=
  binaryLevel_mirrors (by decide) (shift_mirrors hg)

theorem bitXor_mirrors : Mirrors Expr.bare c s g.bitXor :=
  binaryLevel_mirrors (by decide) (bitAnd_mirrors hg)

theorem bitOr_mirrors : Mirrors Expr.bare c s g.bitOr :=
  binaryLevel_mirrors (by decide) (bitXor_mirrors hg)

end

theorem compareOps_words : ∀ o ∈ compareOps, o.1 ≠ "" ∧ Follows.isBracket o.1 = false := by
  decide

theorem compareOp_mirrors : Mirrors (maybe plainly) c s compareOp? := by
  refine Follows.accept ⟨rfl, rfl⟩ (.expect ⟨rfl, rfl⟩ (.done rfl))
    (.accept ⟨rfl, rfl⟩ (.accept ⟨rfl, rfl⟩ (.done rfl) (.done rfl)) (.on fun t => .word ?_))
  cases ho : compareOps.lookup t.word with
  | some op =>
    obtain ⟨hw, hb⟩ := compareOps_words _ (mem_of_lookup ho)
    exact .advance (Token.isLayout_of_word_ne hw) (fun _ => hb) (.done rfl)
  | none => exact .off (.done rfl)

section

variable (hg : g.Followed)

include hg

theorem comparison_link_mirrors : Mirrors (maybe Comparison.bare) c s g.comparison? := by
  refine compareOp_mirrors.nextMaybe (.done rfl) fun op op' ho => ?_
  refine (bitOr_mirrors hg).next fun v w hv => ?_
  exact .some (by simp only [Comparison.bare, hv, ho])

theorem comparison_mirrors : Mirrors Expr.bare c s g.comparison := by
  refine Follows.here fun a b => (bitOr_mirrors hg).next fun lhs lhs' hl => ?_
  refine (many_follows (comparison_link_mirrors hg) _).next fun links links' hs => ?_
  have empty : links.isEmpty = links'.isEmpty := by simpa using congrArg List.isEmpty hs
  rw [← empty]
  refine .ite (fun _ => .done hl) fun _ => ?_
  exact .expr fun st st' hst => by simp only [Expr.bare, bareLinks_eq, hst, hl, hs]

theorem notTest_mirrors : Mirrors Expr.bare c s g.notTest :=
  .here fun _ _ => .accept ⟨rfl, rfl⟩ ((nested_expr_mirrors hg .negation).next fun v w hv =>
    .expr fun st st' hst => by simp only [Expr.bare, hst, hv]) (comparison_mirrors hg)

omit hg in
theorem boolLevel_mirrors {text : String} {op : BoolOp} (hw : Follows.Leads text s s)
    (h : Mirrors Expr.bare c s next) : Mirrors Expr.bare c s (g.boolLevel text op next) := by
  refine Follows.here fun a b => h.next fun first first' hf => ?_
  refine repeated_follows (fun lhs lhs' hl => ?_) _ hf
  refine .accept hw (h.next fun v w hv => .expr fun st st' hst => congrArg some ?_) (.done rfl)
  simp only [Expr.bare, hst, hl, hv]

theorem andTest_mirrors : Mirrors Expr.bare c s g.andTest :=
  boolLevel_mirrors ⟨rfl, rfl⟩ (notTest_mirrors hg)

theorem orTest_mirrors : Mirrors Expr.bare c s g.orTest :=
  boolLevel_mirrors ⟨rfl, rfl⟩ (andTest_mirrors hg)

theorem lambdaExpr_mirrors : Mirrors Expr.bare c s g.lambdaExpr := by
  refine Follows.here fun a b => .expect ⟨rfl, rfl⟩ ?_
  refine (parameters_mirrors hg ":" false).next fun ps ps' hp => .expect ⟨rfl, rfl⟩ ?_
  refine (test_mirrors hg).next fun v w hv => ?_
  exact .expr fun st st' hst => by simp only [Expr.bare, hst, hp, hv]

theorem conditional_mirrors : Mirrors Expr.bare c s g.conditional := by
  refine Follows.on fun t => .word (.ite (fun _ => .off (lambdaExpr_mirrors hg)) fun _ => .off ?_)
  refine .here fun a b => (orTest_mirrors hg).next fun body body' hb => .accept ⟨rfl, rfl⟩ ?_ (.done hb)
  refine (orTest_mirrors hg).next fun test test' ht => .expect ⟨rfl, rfl⟩ ?_
  refine (test_mirrors hg).next fun v w hv => ?_
  exact .expr fun st st' hst => by simp only [Expr.bare, hst, ht, hb, hv]

theorem level_mirrors (level : Level) : Mirrors Expr.bare c s (g.level level) := by
  cases level with
  | conditional => exact conditional_mirrors hg
  | disjunction => exact orTest_mirrors hg
  | negation => exact notTest_mirrors hg
  | bitOr => exact bitOr_mirrors hg
  | factor => exact factor_mirrors hg

end

end Recursion

/-- **Every rule for expressions follows itself.** -/
theorem expression_followed (bound : Nat) : Recursion.Followed ⟨bound, expression bound⟩ := by
  induction bound with
  | zero => exact fun c s level => .fail
  | succ bound ih => exact fun c s level => Recursion.level_mirrors ih level

end SdkUsage.Grammar
