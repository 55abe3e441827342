/-
The levels of operators read the words of expressions. `ruleAt` lists the rules from
conditional expressions to atoms by how tightly they bind.
-/
import SdkUsage.Proofs.Grammar.Follow.Expression
import SdkUsage.Proofs.Grammar.Parses
import SdkUsage.Proofs.Tree.Words

namespace SdkUsage.Grammar

open SdkUsage.Tree

variable {ts : List Token} {level : Nat} {t : Token}

/-! ## What comes before and after an expression -/

/-- The levels that words continue an expression at. -/
def operatorLevels : List (String × Nat) :=
  [("if", 0), ("or", 1), ("and", 2), ("not", 4), ("is", 4), ("in", 4), ("==", 4), ("!=", 4),
   ("<", 4), ("<=", 4), (">", 4), (">=", 4), ("|", 5), ("^", 6), ("&", 7), ("<<", 8), (">>", 8),
   ("+", 9), ("-", 9), ("*", 10), ("/", 10), ("//", 10), ("%", 10), ("@", 10), ("**", 12),
   (".", 13), ("(", 13), ("[", 13)]

/-- Tokens that do not continue an expression of a level. -/
def Stops (level : Nat) (ts : List Token) : Prop :=
  ∃ t us, ts = t :: us ∧ ∀ k ∈ operatorLevels.lookup t.word, k < level

theorem Stops.exists_cons (h : Stops level ts) : ∃ t us, ts = t :: us := by
  obtain ⟨t, us, rfl, -⟩ := h
  exact ⟨t, us, rfl⟩

theorem Stops.ne {k : Nat} {text : String} (h : Stops level (t :: ts))
    (ht : operatorLevels.lookup text = some k) (hk : level ≤ k) : t.word ≠ text := by
  rintro rfl
  obtain ⟨_, _, ⟨⟩, hlt⟩ := h
  have := hlt k ht
  omega

theorem Stops.of_none (h : operatorLevels.lookup t.word = none) : Stops level (t :: ts) := by
  refine ⟨t, ts, rfl, fun k hk => ?_⟩
  rw [h] at hk
  cases hk

theorem Stops.of_some {k : Nat} (h : operatorLevels.lookup t.word = some k) (hk : k < level) :
    Stops level (t :: ts) := by
  refine ⟨t, ts, rfl, fun k' hk' => ?_⟩
  rw [h] at hk'
  cases hk'
  exact hk

/-- A word that does not continue a level is none of its operators. -/
theorem Stops.lookup {β : Type} (h : Stops level (t :: ts)) {ops : List (String × β)}
    (hops : ∀ op ∈ ops, operatorLevels.lookup op.1 = some level) : ops.lookup t.word = none := by
  cases hlookup : ops.lookup t.word with
  | none => rfl
  | some op =>
    obtain ⟨_, _, hmem, -⟩ := List.lookup_eq_some_iff.1 hlookup
    have found := hops (t.word, op) (by simp [hmem])
    exact absurd rfl (h.ne found (Nat.le_refl level))

theorem Stops.mono {level' : Nat} (h : Stops level ts) (hl : level ≤ level') : Stops level' ts := by
  obtain ⟨t, us, rfl, hlt⟩ := h
  exact ⟨t, us, rfl, fun k hk => Nat.lt_of_lt_of_le (hlt k hk) hl⟩

/-- No word continues an expression with signs before it as such. -/
theorem Stops.factor (h : Stops 12 ts) : Stops 11 ts := by
  have levels : ∀ op ∈ operatorLevels, op.2 ≠ 11 := by decide
  obtain ⟨t, us, rfl, hlt⟩ := h
  refine ⟨t, us, rfl, fun k hk => ?_⟩
  obtain ⟨_, _, hmem, -⟩ := List.lookup_eq_some_iff.1 hk
  have := levels (t.word, k) (by simp [hmem])
  have := hlt k hk
  omega

/-- Words that start something else than an expression in a place. -/
def barredWords (place : Nat) : List String :=
  keywords.erase "not" ++ ["", ")", "]", "*", "**", ":", "@"]
    ++ (if 3 < place then ["not"] else []) ++ (if 11 < place then ["-", "+", "~"] else [])

/-- The first of some words starts an expression in a place. -/
def Begins (place : Nat) (ts : List Token) : Prop :=
  ∃ t us, ts = t :: us ∧ t.word ∉ barredWords place

theorem Begins.exists_cons {place : Nat} (h : Begins place ts) : ∃ t us, ts = t :: us := by
  obtain ⟨t, us, rfl, -⟩ := h
  exact ⟨t, us, rfl⟩

theorem Begins.ne {place : Nat} {text : String} (h : Begins place (t :: ts))
    (ht : text ∈ barredWords place) : t.word ≠ text := by
  rintro rfl
  obtain ⟨_, _, ⟨⟩, hw⟩ := h
  exact hw ht

theorem Begins.append {place : Nat} {ts us : List Token} (h : Begins place ts) :
    Begins place (ts ++ us) := by
  obtain ⟨t, vs, rfl, hw⟩ := h
  exact ⟨t, vs ++ us, rfl, hw⟩

theorem Begins.mono {place place' : Nat} (h : Begins place ts) (hp : place' ≤ place) :
    Begins place' ts := by
  obtain ⟨t, us, rfl, hw⟩ := h
  refine ⟨t, us, rfl, fun hmem => hw ?_⟩
  simp only [barredWords, List.mem_append] at hmem ⊢
  rcases hmem with (hmem | hmem) | hmem
  · exact .inl (.inl hmem)
  · refine .inl (.inr ?_)
    split at hmem
    · rwa [if_pos (by omega)]
    · cases hmem
  · refine .inr ?_
    split at hmem
    · rwa [if_pos (by omega)]
    · cases hmem

/-- An expression that starts as its level asks does so in every place. -/
theorem Begins.wordsAt {e : Expr} (h : Begins e.rank e.words) (place : Nat) :
    Begins place (e.wordsAt place) := by
  unfold Expr.wordsAt parens
  split
  · refine ⟨_, _, rfl, ?_⟩
    unfold barredWords
    split <;> split <;> decide
  · next hp => exact h.mono (Nat.not_lt.1 hp)

/-- A plain expression starts as its level asks. -/
theorem Begins.words {e : Expr} (h : e.Plain) : Begins e.rank e.words := by
  induction h with
  | @name _ id hid =>
    have barred : ∀ w ∈ barredWords 13,
        isKeyword w = true ∨ (tokenAt? w.toList).map Prod.fst ≠ some .ident := by decide
    refine ⟨_, _, rfl, fun hmem => ?_⟩
    rcases barred id hmem with hkey | hkind
    · rw [hid.2] at hkey
      cases hkey
    · exact hkind (congrArg (Option.map Prod.fst) hid.1)
  | @number _ text htext =>
    have barred : ∀ w ∈ barredWords 13, (tokenAt? w.toList).map Prod.fst ≠ some .number := by decide
    refine ⟨_, _, rfl, fun hmem => ?_⟩
    exact barred text hmem (congrArg (Option.map Prod.fst) htext)
  | member _ _ ih | call _ _ ih _ | subscript _ _ ih _ => exact (ih.wordsAt 13).append
  | @unary _ op =>
    have bare : op.word.word ∉ barredWords op.rank := by cases op <;> decide
    exact ⟨_, _, rfl, bare⟩
  | @binary _ op _ _ _ _ ih =>
    have tighter : op.rank ≤ op.lhsPlace := by cases op <;> decide
    exact (ih.wordsAt op.lhsPlace).append.mono tighter
  | @boolean _ op _ _ _ _ ih => exact (ih.wordsAt op.rank).append
  | compare _ _ _ ih => exact (ih.wordsAt 5).append.mono (Nat.le_succ 4)
  | conditional _ _ _ _ ih => exact (ih.wordsAt 1).append.mono (Nat.zero_le 1)

/-- The place of a level the grammar comes back to. -/
def Level.place : Level → Nat
  | .conditional => 0
  | .disjunction => 1
  | .negation => 3
  | .bitOr => 5
  | .factor => 11

namespace Recursion

variable (g : Recursion)

/-- The rules by how tightly they bind. -/
def ruleAt : Nat → Parse Expr
  | 0 => g.conditional
  | 1 => g.orTest
  | 2 => g.andTest
  | 3 => g.notTest
  | 4 => g.comparison
  | 5 => g.bitOr
  | 6 => g.bitXor
  | 7 => g.bitAnd
  | 8 => g.shift
  | 9 => g.sum
  | 10 => g.term
  | 11 => g.factor
  | 12 => g.power
  | 13 => g.primary
  | _ => g.atom

/-- Levels that grow an expression to the right. -/
def loopLevels : List Nat := [1, 2, 5, 6, 7, 8, 9, 10, 13]

theorem primary_mem_loopLevels : 13 ∈ loopLevels := by decide

theorem le_of_mem_loopLevels : ∀ level ∈ loopLevels, level ≤ 13 := by decide

/-- One more operand, member, call or subscript of a level, if there is one. -/
def stepAt (start : Span) : Nat → Expr → Parse (Option Expr)
  | 1 => boolOperand? "or" .or g.andTest start
  | 2 => boolOperand? "and" .and g.notTest start
  | 5 => operand? [("|", .bitOr)] g.bitXor start
  | 6 => operand? [("^", .bitXor)] g.bitAnd start
  | 7 => operand? [("&", .bitAnd)] g.shift start
  | 8 => operand? [("<<", .leftShift), (">>", .rightShift)] g.sum start
  | 9 => operand? [("+", .add), ("-", .sub)] g.term start
  | 10 => operand? [("*", .mul), ("/", .div), ("//", .floorDiv), ("%", .mod), ("@", .matMul)]
      g.factor start
  | _ => g.trailer? start

theorem ruleAt_eq (h : level ∈ loopLevels) : g.ruleAt level = (do
    let start ← here
    let first ← g.ruleAt (level + 1)
    repeated (g.stepAt start level) g.bound first) := by
  simp only [loopLevels, List.mem_cons, List.not_mem_nil, or_false] at h
  rcases h with rfl | rfl | rfl | rfl | rfl | rfl | rfl | rfl | rfl <;> rfl

variable {g}

/-- Where no operator of a level follows, an expression does not grow. -/
theorem stepAt_none (h : level ∈ loopLevels) {rest : List Token} (hr : Stops level rest)
    (start : Span) (e : Expr) : Parses (g.stepAt start level e) 0 rest rest (· = none) := by
  obtain ⟨t, us, rfl⟩ := hr.exists_cons
  have binary {ops : List (String × BinOp)} {next : Parse Expr}
      (hops : ∀ op ∈ ops, operatorLevels.lookup op.1 = some level) :
      Parses (operand? ops next start e) 0 (t :: us) (t :: us) (· = none) := by
    refine .token fun u hu => ?_
    have absent : operatorOf? ops u = none := by
      unfold operatorOf?
      split
      · next hk => rw [← hr.lookup hops, hu.word_eq, Token.word, hk]
      · rfl
    rw [absent]
    exact .pure rfl
  simp only [loopLevels, List.mem_cons, List.not_mem_nil, or_false] at h
  rcases h with rfl | rfl | rfl | rfl | rfl | rfl | rfl | rfl | rfl
  · exact .refuse (hr.ne rfl (by decide)) (.pure rfl)
  · exact .refuse (hr.ne rfl (by decide)) (.pure rfl)
  · exact binary (by decide)
  · exact binary (by decide)
  · exact binary (by decide)
  · exact binary (by decide)
  · exact binary (by decide)
  · exact binary (by decide)
  · exact .refuse (hr.ne rfl (by decide)) (.refuse (hr.ne rfl (by decide))
      (.refuse (hr.ne rfl (by decide)) (.pure rfl)))

theorem comparison?_none {rest : List Token} (hr : Stops 4 rest) :
    Parses g.comparison? 0 rest rest (· = none) := by
  obtain ⟨t, us, rfl⟩ := hr.exists_cons
  have none_ : Parses compareOp? 0 (t :: us) (t :: us) (· = none) := by
    refine .refuse (hr.ne rfl (by decide)) (.refuse (hr.ne rfl (by decide)) (.word ?_))
    rw [hr.lookup (by decide)]
    exact .pure rfl
  refine none_.zero_bind fun o ho => ?_
  rw [ho]
  exact .pure rfl

/-! ## From level to level -/

/-- The rule of a level reads some words, whatever comes after them that does not continue
them. -/
def ReadsAt (g : Recursion) (level deep : Nat) (ws : List Token) (good : Expr → Prop) : Prop :=
  ∀ rest, Stops level rest → (ws ++ rest).length ≤ g.bound →
    Parses (g.ruleAt level) deep (ws ++ rest) rest good

/-- The rule of a level comes, over some words, to an expression that it may go on with. -/
def ComesTo (g : Recursion) (level deep : Nat) (ws : List Token) (good : Expr → Prop) : Prop :=
  ∀ rest final deep' (post : Expr → Prop), Stops (level + 1) rest →
    (ws ++ rest).length ≤ g.bound →
    (∀ start e b, good e → rest.length ≤ b →
      Parses (repeated (g.stepAt start level) b e) deep' rest final post) →
    Parses (g.ruleAt level) (max deep deep') (ws ++ rest) final post

section

variable {level deep : Nat} {ws : List Token} {good : Expr → Prop}

theorem ReadsAt.comesTo (h : g.ReadsAt (level + 1) deep ws good) (hl : level ∈ loopLevels) :
    g.ComesTo level deep ws good := by
  intro rest final deep' post hs hlen hgo
  rw [ruleAt_eq g hl]
  refine .here fun start => (h rest hs hlen).bind fun e he => hgo start e g.bound he ?_
  rw [List.length_append] at hlen
  omega

theorem ComesTo.reads (h : g.ComesTo level deep ws good) (hl : level ∈ loopLevels) :
    g.ReadsAt level deep ws good := by
  intro rest hs hlen
  obtain ⟨t, us, rfl⟩ := hs.exists_cons
  have stays := h _ _ 0 good (hs.mono (Nat.le_succ level)) hlen fun start e b he hb =>
    (Parses.repeated_none (by simp at hb; omega) (stepAt_none hl hs start e)).weaken
      fun _ heq => heq ▸ he
  rwa [Nat.max_zero] at stays

/-- Words that start no prefix operator of a level are read by it as by the next. -/
theorem ReadsAt.descend (h : g.ReadsAt (level + 1) deep ws good) (hb : Begins (level + 1) ws)
    (hl : level ≤ 13) : g.ReadsAt level deep ws good := by
  by_cases hloop : level ∈ loopLevels
  · exact (h.comesTo hloop).reads hloop
  · intro rest hs hlen
    have next := h rest (hs.mono (Nat.le_succ level)) hlen
    obtain ⟨t, us, rfl⟩ := hb.exists_cons
    obtain ⟨u, vs, rfl⟩ := hs.exists_cons
    have cases5 : level = 0 ∨ level = 3 ∨ level = 4 ∨ level = 11 ∨ level = 12 := by
      simp only [loopLevels, List.mem_cons, List.not_mem_nil, or_false] at hloop
      omega
    rcases cases5 with rfl | rfl | rfl | rfl | rfl
    · refine .word ?_
      rw [if_neg (hb.ne (by decide))]
      exact .here fun _ => next.bind_zero fun _ he => .refuse (hs.ne rfl (by decide)) (.pure he)
    · exact .here fun _ => .refuse (hb.ne (by decide)) next
    · refine .here fun _ => next.bind_zero fun e he => ?_
      refine (Parses.many_none (by simp at hlen; omega) (comparison?_none hs)).zero_bind
        fun links hlinks => ?_
      rw [hlinks]
      exact .pure he
    · refine .here fun _ => .word ?_
      have absent : signOf? t.word = none := by
        have minus : t.word ≠ "-" := hb.ne (by decide)
        have plus : t.word ≠ "+" := hb.ne (by decide)
        have tilde : t.word ≠ "~" := hb.ne (by decide)
        simp only [signOf?, minus, plus, tilde, if_false]
      rw [absent]
      exact next
    · have base : Parses g.awaitExpr deep (t :: us ++ u :: vs) (u :: vs) good :=
        .here fun _ => .refuse (hb.ne (by decide)) next
      exact .here fun _ => base.bind_zero fun _ he => .refuse (hs.ne rfl (by decide)) (.pure he)

/-- Words that start no prefix operator are read by all looser levels. -/
theorem ReadsAt.loosen {level' : Nat} (h : g.ReadsAt level' deep ws good) (hb : Begins level' ws)
    (hl' : level' ≤ 14) (hl : level ≤ level') : g.ReadsAt level deep ws good := by
  induction hl with
  | refl => exact h
  | @step m hm ih => exact ih (h.descend hb (by omega)) (hb.mono (Nat.le_succ m)) (by omega)

end

/-! ## Places -/

/-- The rules with a bound. -/
abbrev levels (bound : Nat) : Recursion := ⟨bound, expression bound⟩

/-- An expression is read where it is written, in every place. -/
structure Parsed (e : Expr) : Prop where
  reads : ∀ bound place, place ≤ 14 →
    (levels bound).ReadsAt place (e.nestingAt place) (e.wordsAt place) (Expr.Same e)
  comesTo : ∀ bound place, place ∈ loopLevels →
    (levels bound).ComesTo place (e.nestingAt place) (e.wordsAt place) (Expr.Same e)

section

variable {e : Expr} {bound : Nat} {rest : List Token}

/-- Where the grammar comes back to a level, one level deeper. -/
theorem nested_parses (level : Level) {deep : Nat} {ws : List Token} {good : Expr → Prop}
    (h : ∀ bound, (levels bound).ReadsAt level.place deep ws good) (hs : Stops level.place rest)
    (hlen : (ws ++ rest).length < bound) :
    Parses (nested ((levels bound).expr level)) (deep + 1) (ws ++ rest) rest good := by
  obtain ⟨n, rfl⟩ : ∃ n, bound = n + 1 := ⟨bound - 1, by omega⟩
  have rule : (levels (n + 1)).expr level = (levels n).ruleAt level.place := by cases level <;> rfl
  rw [rule]
  exact (h n rest hs (by dsimp only; omega)).nested

theorem namedTest_parses (h : ∀ bound, (levels bound).ReadsAt 0 e.nesting e.words (Expr.Same e))
    (hs : Stops 0 (t :: ts)) (ht : t.word ≠ ":=") (hlen : (e.words ++ t :: ts).length < bound) :
    Parses (levels bound).namedTest (e.nesting + 1) (e.words ++ t :: ts) (t :: ts)
      (Expr.Same e) := by
  refine .here fun _ => (nested_parses .conditional h hs hlen).bind_zero fun e' he => .word ?_
  rw [if_pos ht]
  exact .pure he

/-- Words in parentheses are an atom. -/
theorem parens_readsAt (h : ∀ bound, (levels bound).ReadsAt 0 e.nesting e.words (Expr.Same e))
    (hb : Begins 0 e.words) :
    (levels bound).ReadsAt 14 (e.nesting + 1) (.symbol "(" :: (e.words ++ [.symbol ")"]))
      (Expr.Same e) := by
  intro rest hs hlen
  obtain ⟨v, vs, rfl⟩ := hs.exists_cons
  have inner : Parses ((levels bound).starOr (levels bound).namedTest) (e.nesting + 1)
      (e.words ++ .symbol ")" :: v :: vs) (.symbol ")" :: v :: vs) (Expr.Same e) := by
    have named : Parses (levels bound).namedTest (e.nesting + 1) (e.words ++ .symbol ")" :: v :: vs)
        (.symbol ")" :: v :: vs) (Expr.Same e) :=
      namedTest_parses h (.of_none rfl) (by decide) (by simp at hlen ⊢; omega)
    obtain ⟨t, us, hw⟩ := hb.exists_cons
    rw [hw] at named hb ⊢
    exact .here fun _ => .refuse (hb.ne (by decide)) named
  rw [List.cons_append, List.append_assoc, List.singleton_append]
  refine .token fun u hu => ?_
  rw [← hu.kind, ← hu.text rfl]
  obtain ⟨t, us, hw⟩ := hb.exists_cons
  rw [hw] at inner hb ⊢
  refine .here fun start => .advance (.refuse (hb.ne (by decide)) (.word ?_))
  rw [if_neg (hb.ne (by decide))]
  refine inner.bind_zero fun e' he => .token fun c hc => ?_
  rw [← startsClause_placeless _ _ hc]
  exact .word (.expect rfl (.pure he))

/-- An expression that its own level reads is read in every place. -/
theorem Parsed.of_own (hp : e.Plain) (hr : e.rank ≤ 13)
    (own : ∀ bound, (levels bound).ReadsAt e.rank e.nesting e.words (Expr.Same e))
    (grown : e.rank ∈ loopLevels →
      ∀ bound, (levels bound).ComesTo e.rank e.nesting e.words (Expr.Same e)) : Parsed e := by
  have begins := Begins.words hp
  have looser (bound place : Nat) (h : place ≤ e.rank) :
      (levels bound).ReadsAt place e.nesting e.words (Expr.Same e) :=
    (own bound).loosen begins (by omega) h
  have reads (bound place : Nat) (h : place ≤ 14) :
      (levels bound).ReadsAt place (e.nestingAt place) (e.wordsAt place) (Expr.Same e) := by
    unfold Expr.nestingAt Expr.wordsAt deepAt parens
    split
    · have paren : (levels bound).ReadsAt 14 _ _ (Expr.Same e) :=
        parens_readsAt (fun b => looser b 0 (Nat.zero_le _)) (begins.mono (Nat.zero_le _))
      exact paren.loosen ⟨_, _, rfl, by decide⟩ (Nat.le_refl 14) h
    · exact looser bound place (by omega)
  refine ⟨reads, fun bound place hl => ?_⟩
  by_cases heq : e.rank = place
  · subst heq
    unfold Expr.nestingAt Expr.wordsAt deepAt parens
    rw [if_neg (Nat.lt_irrefl _), if_neg (Nat.lt_irrefl _)]
    exact grown hl bound
  · have next := reads bound (place + 1) (Nat.succ_le_succ (le_of_mem_loopLevels _ hl))
    have same : e.rank < place + 1 ↔ e.rank < place := by omega
    simp only [Expr.nestingAt, Expr.wordsAt, deepAt, parens, same] at next ⊢
    exact next.comesTo hl

theorem Parsed.of_grown (hp : e.Plain) (hl : e.rank ∈ loopLevels)
    (grown : ∀ bound, (levels bound).ComesTo e.rank e.nesting e.words (Expr.Same e)) : Parsed e :=
  .of_own hp (le_of_mem_loopLevels _ hl) (fun bound => (grown bound).reads hl)
    fun _ => grown

/-- Where there is no operator around it, an expression is read by the loosest level. -/
theorem Parsed.top (h : Parsed e) (bound : Nat) :
    (levels bound).ReadsAt 0 e.nesting e.words (Expr.Same e) := by
  have reads := h.reads bound 0 (Nat.zero_le 14)
  rwa [Expr.nestingAt, Expr.wordsAt, deepAt, parens, if_neg (Nat.not_lt_zero _),
    if_neg (Nat.not_lt_zero _)] at reads

end

/-- What one more operand or trailer does to what a level has come to. -/
theorem ComesTo.grow {deep deep' : Nat} {ws us : List Token} {good good' : Expr → Prop}
    (h : g.ComesTo level deep ws good) (hs : ∀ rest, Stops (level + 1) (us ++ rest)) (hne : us ≠ [])
    (step : ∀ rest start e, Stops (level + 1) rest → (us ++ rest).length ≤ g.bound → good e →
      Parses (g.stepAt start level e) deep' (us ++ rest) rest fun o => ∃ w, o = some w ∧ good' w) :
    g.ComesTo level (max deep deep') (ws ++ us) good' := by
  intro rest final deep'' post hstop hlen hgo
  rw [List.append_assoc] at hlen ⊢
  rw [Nat.max_assoc]
  have pos := List.length_pos_of_ne_nil hne
  refine h _ _ _ post (hs rest) hlen fun start e b he hb => ?_
  rw [List.length_append] at hb
  refine .repeated_some (by omega) (step rest start e hstop ?_ he) fun w hw =>
    hgo start w (b - 1) hw (by omega)
  rw [List.length_append] at hlen
  omega

end Recursion

end SdkUsage.Grammar
