/-
The grammar reads every plain expression from its words. For each kind of expression
there is a lemma: if its parts are read in the places they are written in, it is read
by the rule of its own level, and so in every place.
-/
import SdkUsage.Proofs.Grammar.Levels

namespace SdkUsage.Grammar.Recursion

open SdkUsage.Tree

variable {bound : Nat} {site : Site} {es : List Expr} {lhs e rhs : Expr} {text : String}

/-! ## Names and numbers -/

theorem constantOf?_name (h : IsName text) : constantOf? text = none := by
  have constants : ∀ w ∈ ["None", "True", "False", "..."],
      isKeyword w = true ∨ (tokenAt? w.toList).map Prod.fst ≠ some .ident := by decide
  have apart (w : String) (hw : w ∈ ["None", "True", "False", "..."]) : text ≠ w := by
    rintro rfl
    rcases constants _ hw with hkey | hkind
    · rw [h.2] at hkey
      cases hkey
    · exact hkind (congrArg (Option.map Prod.fst) h.1)
  simp only [constantOf?, apart "None" (by decide), apart "True" (by decide),
    apart "False" (by decide), apart "..." (by decide), if_false]

theorem parsed_name (h : IsName text) : Parsed (.name site text) := by
  refine .of_grown (.name h) primary_mem_loopLevels fun bound =>
    ReadsAt.comesTo ?_ primary_mem_loopLevels
  intro rest hs _
  obtain ⟨v, vs, rfl⟩ := hs.exists_cons
  refine .token fun u hu => ?_
  rw [← hu.kind, ← hu.text rfl]
  simp only [Token.ident, constantOf?_name h]
  refine .here fun _ => .ident rfl h.2 fun name hname => .exprSite fun site => .pure ?_
  rw [hname]
  exact .name

theorem parsed_number (h : IsNumeral text) : Parsed (.number site text) := by
  refine .of_grown (.number h) primary_mem_loopLevels fun bound =>
    ReadsAt.comesTo ?_ primary_mem_loopLevels
  intro rest hs _
  obtain ⟨v, vs, rfl⟩ := hs.exists_cons
  refine .token fun u hu => ?_
  rw [← hu.kind]
  refine .token fun w hw => .advance (.exprSite fun site => .pure ?_)
  rw [← hw.text rfl]
  exact .number

/-! ## Members, calls and subscripts -/

theorem parsed_member {value : Expr} {attr : Ident} (hp : (Expr.member site value attr).Plain)
    (hvalue : Parsed value) (hattr : IsName attr.text) : Parsed (.member site value attr) := by
  refine .of_grown hp primary_mem_loopLevels fun bound => ?_
  have comes := hvalue.comesTo bound 13 primary_mem_loopLevels
  rw [Expr.nesting, ← Nat.max_zero (deepAt 13 value.rank value.nesting)]
  refine comes.grow (fun rest => .of_some rfl (by decide)) (by simp) fun rest start e hs _ he => ?_
  obtain ⟨v, vs, rfl⟩ := hs.exists_cons
  exact .accept rfl (.ident rfl hattr.2 fun name hname => .exprSite fun site =>
    .pure ⟨_, rfl, .member he hname.symm⟩)

/-! ### Items with commas between them -/

section

variable {α : Type} {item : Parse α} {last : Token → Bool} {close : Token}
  {good : Expr → α → Prop}

theorem moreArgWords_head (es : List Expr) (close : Token) (us : List Token) :
    ∃ t ts, moreArgWords es ++ close :: us = t :: ts ∧ t.word ∈ [",", close.word] := by
  cases es with
  | nil => exact ⟨_, _, rfl, by simp⟩
  | cons => exact ⟨_, _, rfl, List.mem_cons_self⟩

/-- A rule reads an expression up to a comma or the closing word. -/
def ReadsItem (item : Parse α) (close : Token) (bound : Nat) (good : Expr → α → Prop)
    (e : Expr) : Prop :=
  ∀ t ts, t.word ∈ [",", close.word] → (e.words ++ t :: ts).length < bound →
    Parses item (e.nesting + 1) (e.words ++ t :: ts) (t :: ts) (good e)

/-- Items that each come after a comma. -/
theorem following_parses (hes : ∀ e ∈ es, e.Plain)
    (hitem : ∀ e ∈ es, ReadsItem item close bound good e) (hclose : close.word ≠ ",")
    (hlast : ∀ t u ts, Begins 0 (t :: ts) → t.Alike u → last u = false) (us : List Token) {n : Nat}
    (hn : (moreArgWords es ++ close :: us).length ≤ n) (hb : n ≤ bound) :
    Parses (following "," last item n) (argNesting es) (moreArgWords es ++ close :: us)
      (close :: us) (List.Forall₂ good es) := by
  unfold following
  induction es generalizing n with
  | nil =>
    refine (Parses.many_none (by simp at hn; omega) (.refuse hclose ?_)).weaken ?_
    · exact .pure rfl
    · rintro _ rfl
      exact .nil
  | cons e es ih =>
    obtain ⟨hp, hes⟩ := List.forall_mem_cons.1 hes
    obtain ⟨hfirst, hitem⟩ := List.forall_mem_cons.1 hitem
    simp only [moreArgWords, List.cons_append, List.append_assoc, List.length_cons] at hn ⊢
    have more := ih hes hitem (n := n - 1) (by simp at hn ⊢; omega) (by omega)
    obtain ⟨t, ts, head, ht⟩ := moreArgWords_head es close us
    rw [head] at hn more ⊢
    have first := hfirst t ts ht (by omega)
    refine .many_some (good e) (by omega) ?_ (more.weaken fun vs hvs v hv => .cons hv hvs)
    have begins : Begins 0 e.words := (Begins.words hp).mono (Nat.zero_le _)
    obtain ⟨w, ws, hw⟩ := begins.exists_cons
    rw [hw] at first begins ⊢
    refine .accept rfl (.token fun v hv => ?_)
    rw [hlast w v ws begins hv]
    exact first.bind_zero fun a ha => .pure ⟨a, rfl, ha⟩

/-- Items with commas between them. -/
theorem separated_parses (hne : es ≠ []) (hes : ∀ e ∈ es, e.Plain)
    (hitem : ∀ e ∈ es, ReadsItem item close bound good e) (hclose : close.word ≠ ",")
    (hlast : ∀ t u ts, Begins 0 (t :: ts) → t.Alike u → last u = false) (us : List Token)
    (hlen : (argWords es ++ close :: us).length < bound) :
    Parses (separated "," last item bound) (argNesting es) (argWords es ++ close :: us)
      (close :: us) (List.Forall₂ good es) := by
  cases es with
  | nil => exact absurd rfl hne
  | cons e es =>
    obtain ⟨-, hes⟩ := List.forall_mem_cons.1 hes
    obtain ⟨hfirst, hitem⟩ := List.forall_mem_cons.1 hitem
    simp only [argWords, List.append_assoc] at hlen ⊢
    have more := following_parses hes hitem hclose hlast us (by simp at hlen ⊢; omega)
      (Nat.le_refl bound)
    obtain ⟨t, ts, head, ht⟩ := moreArgWords_head es close us
    rw [head] at hlen more ⊢
    exact (hfirst t ts ht hlen).bind fun a ha => more.bind_zero fun as has => .pure (.cons ha has)

/-- Values that are made of others. -/
theorem exists_map_of_forall₂ {f : Expr → α} {vs : List α}
    (h : List.Forall₂ (fun e v => ∃ e', v = f e' ∧ Expr.Same e e') es vs) :
    ∃ es', vs = es'.map f ∧ List.Forall₂ Expr.Same es es' := by
  induction h with
  | nil => exact ⟨[], rfl, .nil⟩
  | cons hfirst _ ih =>
    obtain ⟨e', rfl, same⟩ := hfirst
    obtain ⟨es', rfl, more⟩ := ih
    exact ⟨e' :: es', rfl, .cons same more⟩

end

/-! ### Calls and subscripts -/

/-- An argument up to a comma or the closing parenthesis. -/
theorem argument_readsItem (hp : e.Plain) (he : Parsed e) :
    ReadsItem (levels bound).argument (.symbol ")") bound
      (fun e a => ∃ e', a = .positional e' ∧ Expr.Same e e') e := by
  intro t ts ht hlen
  have closing : ∀ w ∈ [",", ")"], operatorLevels.lookup w = none ∧ w ≠ ":=" ∧ w ≠ "=" ∧
      w ≠ "for" ∧ w ≠ "async" := by decide
  obtain ⟨stops, noWalrus, noEquals, noFor, noAsync⟩ := closing _ ht
  have named := namedTest_parses he.top (.of_none stops) noWalrus hlen
  have begins : Begins 0 e.words := (Begins.words hp).mono (Nat.zero_le _)
  obtain ⟨u, us, hw⟩ := begins.exists_cons
  rw [hw] at named begins ⊢
  refine .here fun _ => .refuse (begins.ne (by decide)) (.refuse (begins.ne (by decide)) ?_)
  refine named.bind_zero fun e' he' => .token fun c hc => ?_
  have noEquals' : isWord "=" c = false := by
    rw [← isWord_placeless _ _ _ hc]
    exact decide_eq_false noEquals
  have noClause : startsClause t = false := by
    rw [startsClause, decide_eq_false noFor, decide_eq_false noAsync, Bool.or_self]
  rw [noEquals']
  split
  · next heq => cases heq
  · refine .token fun d hd => ?_
    rw [← startsClause_placeless _ _ hd, noClause]
    exact .pure ⟨_, rfl, he'⟩

/-- The arguments of a call. -/
theorem arguments_parses (hes : ∀ e ∈ es, e.Plain ∧ Parsed e) {u : Token} {us : List Token}
    (hlen : (argWords es ++ .symbol ")" :: u :: us).length < bound) :
    Parses (levels bound).arguments (argNesting es) (argWords es ++ .symbol ")" :: u :: us)
      (u :: us) fun as => ∃ es', as = es'.map .positional ∧ List.Forall₂ Expr.Same es es' := by
  cases es with
  | nil => exact .accept rfl (.pure ⟨[], rfl, .nil⟩)
  | cons e es =>
    have goes (t v : Token) (ts : List Token) (hb : Begins 0 (t :: ts)) (hv : t.Alike v) :
        isWord ")" v = false := by
      rw [← isWord_placeless _ _ _ hv]
      exact decide_eq_false (hb.ne (by decide))
    have all := separated_parses (List.cons_ne_nil e es) (fun e he => (hes e he).1)
      (fun e he => argument_readsItem (hes e he).1 (hes e he).2) (by decide) goes (u :: us) hlen
    have begins : Begins 0 (argWords (e :: es)) := by
      rw [argWords]
      exact ((Begins.words (hes e List.mem_cons_self).1).mono (Nat.zero_le _)).append
    obtain ⟨w, ws, hw⟩ := begins.exists_cons
    rw [hw] at all begins ⊢
    exact .refuse (begins.ne (by decide)) (all.bind_zero fun as has =>
      .expect rfl (.pure (exists_map_of_forall₂ has)))

theorem positionals_map (es : List Expr) : positionals (es.map .positional) = es := by
  rw [positionals, List.filterMap_map]
  exact List.filterMap_some

theorem keywordsOf_map (es : List Expr) : keywordsOf (es.map .positional) = [] := by
  rw [keywordsOf, List.filterMap_map]
  exact List.filterMap_eq_nil_iff.2 fun _ _ => rfl

theorem parsed_call {func : Expr} {args : List Expr} (hp : (Expr.call site func args []).Plain)
    (hfunc : Parsed func) (hargs : ∀ e ∈ args, e.Plain ∧ Parsed e) :
    Parsed (.call site func args []) := by
  refine .of_grown hp primary_mem_loopLevels fun bound => ?_
  have comes := hfunc.comesTo bound 13 primary_mem_loopLevels
  rw [Expr.nesting, Expr.words]
  refine comes.grow (fun rest => .of_some rfl (by decide)) (by simp)
    fun rest start e hs hlen he => ?_
  obtain ⟨v, vs, rfl⟩ := hs.exists_cons
  have inner : Parses (levels bound).arguments (argNesting args)
      (argWords args ++ .symbol ")" :: v :: vs) (v :: vs) _ :=
    arguments_parses hargs (by simp at hlen ⊢; omega)
  rw [List.cons_append, List.append_assoc, List.singleton_append]
  obtain ⟨w, ws, head⟩ : ∃ w ws, argWords args ++ .symbol ")" :: v :: vs = w :: ws :=
    List.exists_cons_of_ne_nil (by simp)
  rw [head] at inner ⊢
  refine .refuse (by decide) (.accept rfl (inner.bind_zero fun as has => .exprSite fun site =>
    .pure ⟨_, rfl, ?_⟩))
  obtain ⟨es', rfl, same⟩ := has
  rw [positionals_map, keywordsOf_map]
  exact .call he same

theorem sliceItem_parses (he : Parsed e) (hp : e.Plain) {us : List Token}
    (hlen : (e.words ++ .symbol "]" :: us).length < bound) :
    Parses (levels bound).sliceItem (e.nesting + 1) (e.words ++ .symbol "]" :: us)
      (.symbol "]" :: us) (Expr.Same e) := by
  have named : Parses (levels bound).namedTest (e.nesting + 1) (e.words ++ .symbol "]" :: us)
      (.symbol "]" :: us) (Expr.Same e) :=
    namedTest_parses he.top (.of_none rfl) (by decide) hlen
  have begins : Begins 0 e.words := (Begins.words hp).mono (Nat.zero_le _)
  obtain ⟨w, ws, hw⟩ := begins.exists_cons
  rw [hw] at named begins ⊢
  refine .here fun _ => ?_
  have lower : Parses (do
      if (← word) = ":" then return none
      return some (← (levels bound).namedTest) : Parse (Option Expr)) (e.nesting + 1)
      (w :: ws ++ .symbol "]" :: us) (.symbol "]" :: us)
      fun o => ∃ e', o = some e' ∧ Expr.Same e e' := by
    refine .word ?_
    rw [if_neg (begins.ne (by decide))]
    exact named.bind_zero fun e' he' => .pure ⟨e', rfl, he'⟩
  refine lower.bind_zero fun o ho => .token fun c hc => ?_
  obtain ⟨e', rfl, he'⟩ := ho
  have ends : isWord ":" c = false := by
    rw [← isWord_placeless _ _ _ hc]
    decide
  rw [ends]
  exact .pure he'

theorem parsed_subscript {value index : Expr} (hp : (Expr.subscript site value index).Plain)
    (hvalue : Parsed value) (hi : index.Plain) (hindex : Parsed index) :
    Parsed (.subscript site value index) := by
  refine .of_grown hp primary_mem_loopLevels fun bound => ?_
  have comes := hvalue.comesTo bound 13 primary_mem_loopLevels
  rw [Expr.nesting, Expr.words]
  refine comes.grow (fun rest => .of_some rfl (by decide)) (by simp)
    fun rest start e hs hlen he => ?_
  obtain ⟨v, vs, rfl⟩ := hs.exists_cons
  have item : Parses (levels bound).sliceItem (index.nesting + 1)
      (index.words ++ .symbol "]" :: v :: vs) (.symbol "]" :: v :: vs) (Expr.Same index) :=
    sliceItem_parses hindex hi (by simp at hlen ⊢; omega)
  have inner : Parses (levels bound).subscriptIndex (index.nesting + 1)
      (index.words ++ .symbol "]" :: v :: vs) (.symbol "]" :: v :: vs) (Expr.Same index) :=
    .here fun _ => item.bind_zero fun e' he' => .word (.pure he')
  rw [List.cons_append, List.append_assoc, List.singleton_append]
  obtain ⟨w, ws, head⟩ : ∃ w ws, index.words ++ .symbol "]" :: v :: vs = w :: ws :=
    List.exists_cons_of_ne_nil (by simp)
  rw [head] at inner ⊢
  exact .refuse (by decide) (.refuse (by decide) (.accept rfl (inner.bind_zero fun e' he' =>
    .expect rfl (.exprSite fun site => .pure ⟨_, rfl, .subscript he he'⟩))))

/-! ## Prefix operators and powers -/

theorem parsed_not {operand : Expr} (hp : (Expr.unary site .not operand).Plain)
    (hoperand : Parsed operand) : Parsed (.unary site .not operand) := by
  refine .of_own hp (by decide : 3 ≤ 13) (fun bound rest hs hlen => ?_)
    fun hmem => absurd hmem (by decide : 3 ∉ loopLevels)
  have words : (Expr.unary site .not operand).words = .ident "not" :: operand.wordsAt 3 :=
    Expr.words_unary
  have nesting : (Expr.unary site .not operand).nesting = operand.nestingAt 3 + 1 :=
    Expr.nesting_unary
  rw [words, List.cons_append] at hlen ⊢
  rw [nesting]
  have inner := nested_parses .negation (fun b => hoperand.reads b 3 (by decide)) hs hlen
  obtain ⟨v, vs, rfl⟩ := hs.exists_cons
  obtain ⟨w, ws, head⟩ : ∃ w ws, operand.wordsAt 3 ++ v :: vs = w :: ws :=
    List.exists_cons_of_ne_nil (by simp)
  rw [head] at inner ⊢
  exact .here fun _ => .accept rfl (inner.bind_zero fun _ he => .exprSite fun _ =>
    .pure (.unary he))

theorem parsed_sign {op : UnaryOp} {operand : Expr} (hop : op ≠ .not)
    (hp : (Expr.unary site op operand).Plain) (hoperand : Parsed operand) :
    Parsed (.unary site op operand) := by
  have rank : op.rank = 11 := by cases op <;> first | rfl | exact absurd rfl hop
  have sign : signOf? op.word.word = some op := by
    cases op <;> first | rfl | exact absurd rfl hop
  refine .of_own hp (by rw [Expr.rank, rank]; decide) (fun bound rest hs hlen => ?_)
    fun hmem => absurd hmem (by rw [Expr.rank, rank]; decide)
  rw [Expr.rank, rank] at hs ⊢
  rw [Expr.words_unary, rank, List.cons_append] at hlen ⊢
  rw [Expr.nesting_unary, rank]
  have inner := nested_parses .factor (fun b => hoperand.reads b 11 (by decide)) hs hlen
  obtain ⟨v, vs, rfl⟩ := hs.exists_cons
  obtain ⟨w, ws, head⟩ : ∃ w ws, operand.wordsAt 11 ++ v :: vs = w :: ws :=
    List.exists_cons_of_ne_nil (by simp)
  rw [head] at inner ⊢
  refine .here fun _ => .word ?_
  rw [sign]
  exact .advance (inner.bind_zero fun _ he => .exprSite fun _ => .pure (.unary he))

theorem parsed_power (hp : (Expr.binary site .pow lhs rhs).Plain) (hl : lhs.Plain)
    (hlhs : Parsed lhs) (hrhs : Parsed rhs) : Parsed (.binary site .pow lhs rhs) := by
  refine .of_own hp (by decide : 12 ≤ 13) (fun bound rest hs hlen => ?_)
    fun hmem => absurd hmem (by decide : 12 ∉ loopLevels)
  have words : (Expr.binary site .pow lhs rhs).words =
      lhs.wordsAt 13 ++ .symbol "**" :: rhs.wordsAt 11 := Expr.words_binary
  have nesting : (Expr.binary site .pow lhs rhs).nesting =
      max (lhs.nestingAt 13) (rhs.nestingAt 11 + 1) := Expr.nesting_binary
  rw [words, List.append_assoc, List.cons_append] at hlen ⊢
  rw [nesting]
  have exponent : Parses (nested ((levels bound).expr .factor)) (rhs.nestingAt 11 + 1)
      (rhs.wordsAt 11 ++ rest) rest (Expr.Same rhs) :=
    nested_parses .factor (fun b => hrhs.reads b 11 (by decide)) (Stops.factor hs)
      (by simp at hlen ⊢; omega)
  have left := hlhs.reads bound 13 (by decide) _ (.of_some (k := 12) rfl (by decide)) hlen
  obtain ⟨v, vs, rfl⟩ := hs.exists_cons
  obtain ⟨w, ws, head⟩ : ∃ w ws, rhs.wordsAt 11 ++ v :: vs = w :: ws :=
    List.exists_cons_of_ne_nil (by simp)
  have begins := (Begins.words hl).wordsAt 13
  obtain ⟨u, us, first⟩ := begins.exists_cons
  rw [first] at left begins ⊢
  rw [head] at left exponent ⊢
  have base : Parses (levels bound).awaitExpr (lhs.nestingAt 13)
      (u :: us ++ .symbol "**" :: w :: ws) (.symbol "**" :: w :: ws) (Expr.Same lhs) :=
    .here fun _ => .refuse (begins.ne (by decide)) left
  exact .here fun _ => base.bind fun _ hb => .accept rfl (exponent.bind_zero fun _ he =>
    .exprSite fun _ => .pure (.binary hb he))

/-! ## Operators that group to the left -/

theorem stepAt_binary {op : BinOp} (hop : op ≠ .pow) (g : Recursion) (start : Span) :
    ∃ ops, g.stepAt start op.rank = operand? ops (g.ruleAt (op.rank + 1)) start ∧
      ops.lookup op.text = some op := by
  cases op with
  | pow => exact absurd rfl hop
  | _ => exact ⟨_, rfl, rfl⟩

theorem parsed_binary {op : BinOp} (hop : op ≠ .pow) (hp : (Expr.binary site op lhs rhs).Plain)
    (hlhs : Parsed lhs) (hrhs : Parsed rhs) : Parsed (.binary site op lhs rhs) := by
  have facts : op.rank ∈ loopLevels ∧ op.lhsPlace = op.rank ∧ op.rhsPlace = op.rank + 1 ∧
      operatorLevels.lookup op.text = some op.rank := by
    cases op <;> first | decide | exact absurd rfl hop
  obtain ⟨loops, lhsPlace, rhsPlace, continues⟩ := facts
  refine .of_grown hp loops fun bound => ?_
  have comes := hlhs.comesTo bound op.rank loops
  rw [Expr.nesting_binary, Expr.words_binary, lhsPlace, rhsPlace, if_neg hop]
  refine comes.grow (fun rest => .of_some continues (Nat.lt_succ_self _)) (by simp)
    fun rest start e hs hlen he => ?_
  obtain ⟨ops, step, found⟩ := stepAt_binary hop (levels bound) start
  have right := hrhs.reads bound (op.rank + 1) (Nat.succ_le_succ (le_of_mem_loopLevels _ loops)) rest hs
    (by simp at hlen ⊢; omega)
  obtain ⟨v, vs, rfl⟩ := hs.exists_cons
  obtain ⟨w, ws, head⟩ : ∃ w ws, rhs.wordsAt (op.rank + 1) ++ v :: vs = w :: ws :=
    List.exists_cons_of_ne_nil (by simp)
  rw [List.cons_append, head, step]
  rw [head] at right
  refine .token fun u hu => ?_
  have operator : operatorOf? ops u = some op := by
    rw [operatorOf?, ← hu.kind, ← hu.text rfl]
    exact found
  rw [operator]
  exact .advance (right.bind_zero fun _ hr => .exprSite fun _ => .pure ⟨_, rfl, .binary he hr⟩)

theorem stepAt_boolean (op : BoolOp) (g : Recursion) (start : Span) :
    g.stepAt start op.rank = boolOperand? op.text op (g.ruleAt (op.rank + 1)) start := by
  cases op <;> rfl

theorem parsed_boolean {op : BoolOp} (hp : (Expr.boolean site op lhs rhs).Plain) (hlhs : Parsed lhs)
    (hrhs : Parsed rhs) : Parsed (.boolean site op lhs rhs) := by
  have loops : op.rank ∈ loopLevels := by cases op <;> decide
  have continues : operatorLevels.lookup op.text = some op.rank := by cases op <;> rfl
  refine .of_grown hp loops fun bound => ?_
  have comes := hlhs.comesTo bound op.rank loops
  rw [Expr.nesting_boolean, Expr.words_boolean]
  refine comes.grow (fun rest => .of_some continues (Nat.lt_succ_self _)) (by simp)
    fun rest start e hs hlen he => ?_
  have right := hrhs.reads bound (op.rank + 1) (Nat.succ_le_succ (le_of_mem_loopLevels _ loops)) rest hs
    (by simp at hlen ⊢; omega)
  obtain ⟨v, vs, rfl⟩ := hs.exists_cons
  obtain ⟨w, ws, head⟩ : ∃ w ws, rhs.wordsAt (op.rank + 1) ++ v :: vs = w :: ws :=
    List.exists_cons_of_ne_nil (by simp)
  rw [List.cons_append, head, stepAt_boolean]
  rw [head] at right
  exact .accept rfl (right.bind_zero fun _ hr => .exprSite fun _ =>
    .pure ⟨_, rfl, .boolean he hr⟩)

/-! ## Comparisons and conditions -/

/-- A comparison operator, before what is no `not`. -/
theorem compareOp?_parses (op : CompareOp) {t : Token} {ts : List Token} (ht : t.word ≠ "not") :
    Parses compareOp? 0 (op.words ++ t :: ts) (t :: ts) (· = some op) := by
  cases op with
  | notIn => exact .accept rfl (.expect rfl (.pure rfl))
  | is => exact .refuse (by decide) (.accept rfl (.refuse ht (.pure rfl)))
  | isNot => exact .refuse (by decide) (.accept rfl (.accept rfl (.pure rfl)))
  | _ => exact .refuse (by decide) (.refuse (by decide) (.word (.advance (.pure rfl))))

/-- What the words of further links start with. -/
theorem linkWords_stops (links : List (Comparison Expr)) {rest : List Token} (hs : Stops 4 rest) :
    Stops 5 (linkWords links ++ rest) := by
  cases links with
  | nil => exact hs.mono (Nat.le_succ 4)
  | cons link links =>
    obtain ⟨op, operand⟩ := link
    rw [linkWords]
    cases op <;> exact .of_some (k := 4) rfl (Nat.lt_succ_self 4)

theorem links_parses {links : List (Comparison Expr)} {n : Nat} {rest : List Token}
    (hl : ∀ l ∈ links, l.operand.Plain ∧ Parsed l.operand) (hs : Stops 4 rest)
    (hn : (linkWords links ++ rest).length ≤ n) (hb : n ≤ bound) :
    Parses (many (levels bound).comparison? n) (linkNesting links) (linkWords links ++ rest) rest
      fun links' => links.map Comparison.op = links'.map Comparison.op ∧
        List.Forall₂ Expr.Same (links.map Comparison.operand) (links'.map Comparison.operand) := by
  induction links generalizing n with
  | nil =>
    obtain ⟨v, vs, rfl⟩ := hs.exists_cons
    refine (Parses.many_none (by simp [linkWords] at hn; omega) (comparison?_none hs)).weaken ?_
    rintro _ rfl
    exact ⟨rfl, .nil⟩
  | cons link links ih =>
    obtain ⟨op, operand⟩ := link
    obtain ⟨hp, hoperand⟩ := hl ⟨op, operand⟩ (by simp)
    have words : linkWords (⟨op, operand⟩ :: links) ++ rest =
        op.words ++ (operand.wordsAt 5 ++ (linkWords links ++ rest)) := by
      rw [linkWords, Expr.wordsAt, List.append_assoc, List.append_assoc]
    have pos : 0 < op.words.length := by cases op <;> decide
    rw [words] at hn ⊢
    rw [List.length_append] at hn
    have right := hoperand.reads bound 5 (by decide) _ (linkWords_stops links hs)
      (by dsimp only; omega)
    rw [List.length_append] at hn
    have more := ih (n := n - 1) (fun l hmem => hl l (by simp [hmem])) (by omega) (by omega)
    refine .many_some (fun l => l.op = op ∧ Expr.Same operand l.operand) (by omega) ?_
      (more.weaken ?_)
    · have begins := (Begins.words hp).wordsAt 5
      obtain ⟨t, ts, first⟩ := begins.exists_cons
      rw [first] at right begins ⊢
      refine (compareOp?_parses op (begins.ne (by decide))).zero_bind fun o ho => ?_
      rw [ho]
      exact right.bind_zero fun e he => .pure ⟨⟨op, e⟩, rfl, rfl, he⟩
    · rintro links' ⟨ops, same⟩ l ⟨rfl, hsame⟩
      exact ⟨congrArg (l.op :: ·) ops, .cons hsame same⟩

theorem parsed_compare {links : List (Comparison Expr)} (hp : (Expr.compare site lhs links).Plain)
    (hlhs : Parsed lhs) (hne : links ≠ []) (hl : ∀ l ∈ links, l.operand.Plain ∧ Parsed l.operand) :
    Parsed (.compare site lhs links) := by
  refine .of_own hp (by decide : 4 ≤ 13) (fun bound rest hs hlen => ?_)
    fun hmem => absurd hmem (by decide : 4 ∉ loopLevels)
  have words : (Expr.compare site lhs links).words ++ rest =
      lhs.wordsAt 5 ++ (linkWords links ++ rest) := by
    rw [Expr.words, Expr.wordsAt, List.append_assoc]
  rw [words] at hlen ⊢
  rw [Expr.nesting]
  have left := hlhs.reads bound 5 (by decide) _ (linkWords_stops links hs) hlen
  rw [List.length_append] at hlen
  have more := links_parses hl hs (n := bound) (by dsimp only at hlen; omega) (Nat.le_refl bound)
  refine .here fun _ => left.bind fun e he => more.bind_zero fun links' hlinks => ?_
  have grown : links'.isEmpty = false := by
    rw [List.isEmpty_eq_false_iff]
    rintro rfl
    exact hne (List.map_eq_nil_iff.1 hlinks.1)
  rw [grown]
  exact .exprSite fun _ => .pure (.compare he hlinks.1 hlinks.2)

theorem parsed_conditional {test body orelse : Expr}
    (hp : (Expr.conditional site test body orelse).Plain) (hb : body.Plain) (htest : Parsed test)
    (hbody : Parsed body) (horelse : Parsed orelse) :
    Parsed (.conditional site test body orelse) := by
  refine .of_own hp (by decide : 0 ≤ 13) (fun bound rest hs hlen => ?_)
    fun hmem => absurd hmem (by decide : 0 ∉ loopLevels)
  rw [Expr.words_conditional, List.append_assoc, List.cons_append, List.append_assoc,
    List.cons_append] at hlen ⊢
  rw [Expr.nesting_conditional]
  have first := hbody.reads bound 1 (by decide) _ (.of_some (k := 0) rfl (by decide)) hlen
  have second := htest.reads bound 1 (by decide) (.ident "else" :: (orelse.words ++ rest))
    (.of_none rfl) (by simp at hlen ⊢; omega)
  have third : Parses (levels bound).test (orelse.nesting + 1) (orelse.words ++ rest) rest _ :=
    nested_parses .conditional horelse.top hs (by simp at hlen ⊢; omega)
  have begins := (Begins.words hb).wordsAt 1
  obtain ⟨u, us, hfirst⟩ := begins.exists_cons
  obtain ⟨v, vs, rfl⟩ := hs.exists_cons
  obtain ⟨w, ws, hthird⟩ : ∃ w ws, orelse.words ++ v :: vs = w :: ws :=
    List.exists_cons_of_ne_nil (by simp)
  obtain ⟨w', ws', hsecond⟩ : ∃ w' ws', test.wordsAt 1 ++ .ident "else" :: w :: ws = w' :: ws' :=
    List.exists_cons_of_ne_nil (by simp)
  rw [hfirst] at first begins ⊢
  rw [hthird] at first second third ⊢
  rw [hsecond] at first second ⊢
  refine .word ?_
  rw [if_neg (begins.ne (by decide))]
  exact .here fun _ => first.bind fun _ hbody' => .accept rfl (second.bind fun _ htest' =>
    .expect rfl (third.bind_zero fun _ horelse' => .exprSite fun _ =>
      .pure (.conditional htest' hbody' horelse')))

/-- The grammar reads every plain expression from its words. -/
theorem parsed (h : e.Plain) : Parsed e := by
  induction h with
  | name hid => exact parsed_name hid
  | number htext => exact parsed_number htext
  | member hvalue hattr ih => exact parsed_member (.member hvalue hattr) ih hattr
  | call hfunc hargs ih ihargs =>
    exact parsed_call (.call hfunc hargs) ih fun e he => ⟨hargs e he, ihargs e he⟩
  | subscript hvalue hindex ih ihindex =>
    exact parsed_subscript (.subscript hvalue hindex) ih hindex ihindex
  | @unary _ op _ ho ih =>
    by_cases hop : op = .not
    · subst hop
      exact parsed_not (.unary ho) ih
    · exact parsed_sign hop (.unary ho) ih
  | @binary _ op _ _ hl hr ihl ihr =>
    by_cases hop : op = .pow
    · subst hop
      exact parsed_power (.binary hl hr) hl ihl ihr
    · exact parsed_binary hop (.binary hl hr) ihl ihr
  | boolean hl hr ihl ihr => exact parsed_boolean (.boolean hl hr) ihl ihr
  | compare hl hne hlinks ihl ihlinks =>
    exact parsed_compare (.compare hl hne hlinks) ihl hne fun l hmem =>
      ⟨hlinks l hmem, ihlinks l hmem⟩
  | conditional ht hb ho iht ihb iho =>
    exact parsed_conditional (.conditional ht hb ho) hb iht ihb iho

end SdkUsage.Grammar.Recursion
