/-
What it means that rules get on. `Agrees pre x y post` says that two rules, which may come
back to others with different bounds, do the same wherever `pre` holds: they end with the same
value or error, the error is not that a bound is used up, and a value is reached by passing
tokens.

`Within n` counts the tokens to come. A rule that takes a parser from `Within n` to
`Within (n - 1)` has passed a token, and a loop whose every round does so is not stopped by a
bound that is at least `n`.
-/
import SdkUsage.Grammar.Parse
import SdkUsage.Proofs.Token.Stream

namespace SdkUsage

/-- The lexer does not say that the grammar stalls. -/
theorem Lexer.next_cause {lexer l : Lexer} {error : SyntaxError}
    (h : lexer.next = (.error error, l)) : error.cause ≠ .stalled := by
  obtain ⟨place, cause, errs, rfl⟩ := next_error h
  show cause ≠ .stalled
  clear h
  induction errs with
  | indented _ _ _ ih | emptyLine _ _ _ ih => exact ih
  | unmatched | broken => nofun
  | word _ hc =>
    rintro rfl
    simp [tokenCauses] at hc

namespace Grammar

open SdkUsage.Tree

/-! ## Passing tokens -/

namespace Parser

/-- A parser comes to another by passing tokens, none of which is the end token. -/
inductive Passes : Parser → List Token → Parser → Prop
  | nil {p q} : q.lexer = p.lexer → q.token = p.token → Passes p [] q
  | cons {p q r ts} : p.token.kind ≠ .eof → advance p = .ok () q → Passes q ts r →
    Passes p (p.token :: ts) r

/-- Bounds the number of tokens to come before the end token. -/
def left (p : Parser) : Nat := if p.token.kind = .eof then 0 else p.lexer.left + 1

theorem left_le_lexer (p : Parser) : p.left ≤ p.lexer.left + 1 := by
  unfold left
  split <;> omega

variable {p q r : Parser} {ts us : List Token}

theorem advance_eq_ok {u : Unit} (h : advance p = .ok u q) :
    ∃ t l, p.lexer.next = (.ok t, l) ∧
      q = { p with lexer := l, token := t, stop := p.token.span.stop } := by
  unfold advance at h
  split at h
  · next t l hn =>
    cases h
    exact ⟨t, l, hn, rfl⟩
  · cases h

/-- Where the parser is at depends on its lexer and its token only. -/
theorem Passes.start {p' : Parser} (h : p.Passes ts q) (hl : p'.lexer = p.lexer)
    (ht : p'.token = p.token) : p'.Passes ts q := by
  induction h generalizing p' with
  | nil hl' ht' => exact .nil (hl'.trans hl.symm) (ht'.trans ht.symm)
  | @cons p q r ts hk hp _ ih =>
    obtain ⟨t, l, hn, rfl⟩ := advance_eq_ok hp
    rw [← ht]
    refine .cons (ht ▸ hk) (q := { p' with lexer := l, token := t, stop := p'.token.span.stop }) ?_
      (ih rfl rfl)
    rw [advance, hl, hn]

theorem Passes.trans (h : p.Passes ts q) (h' : q.Passes us r) : p.Passes (ts ++ us) r := by
  induction h with
  | nil hl ht => exact h'.start hl.symm ht.symm
  | cons hk hn _ ih => exact .cons hk hn (ih h')

/-- **Every token passed is one less to come.** -/
theorem Passes.left_le (h : p.Passes ts q) (hq : p.lexer.Quiet) : q.left + ts.length ≤ p.left := by
  induction h with
  | nil hl ht =>
    unfold left
    rw [hl, ht]
    exact Nat.le_refl _
  | cons hk hp _ ih =>
    obtain ⟨t, l, hn, rfl⟩ := advance_eq_ok hp
    obtain ⟨quiet, -, -, fewer⟩ := Lexer.next_fair hq hn
    have rest := ih quiet
    simp only [left, List.length_cons] at rest ⊢
    rw [if_neg hk]
    by_cases ht : t.kind = .eof
    · rw [if_pos ht] at rest
      omega
    · have := fewer ht
      rw [if_neg ht] at rest
      omega

theorem Passes.quiet (h : p.Passes ts q) (hq : p.lexer.Quiet) : q.lexer.Quiet := by
  induction h with
  | nil hl _ => rwa [hl]
  | cons _ hp _ ih =>
    obtain ⟨t, l, hn, rfl⟩ := advance_eq_ok hp
    exact ih (Lexer.next_fair hq hn).1

theorem Passes.ne_nil (h : p.Passes ts q) (hl : q.left < p.left) : ts ≠ [] := by
  rintro rfl
  cases h with
  | nil hl' ht =>
    unfold left at hl
    rw [hl', ht] at hl
    exact Nat.lt_irrefl _ hl

end Parser

/-! ## The parser at the start -/

theorem Parser.start_ok {source : Source} {p : Parser} (h : Parser.start source = .ok p) :
    ∃ t l, (Lexer.start source).next = (.ok t, l) ∧ p = ⟨l, t, 0, 0, 0, 0⟩ := by
  unfold Parser.start at h
  split at h
  · next t l hn =>
    cases h
    exact ⟨t, l, hn, rfl⟩
  · cases h

theorem Parser.start_of_next {source : Source} {t : Token} {l : Lexer}
    (h : (Lexer.start source).next = (.ok t, l)) :
    Parser.start source = .ok ⟨l, t, 0, 0, 0, 0⟩ := by
  rw [Parser.start, h]

theorem Parser.start_lexer_quiet {source : Source} {p : Parser} (h : Parser.start source = .ok p) :
    p.lexer.Quiet := by
  obtain ⟨t, l, hn, rfl⟩ := start_ok h
  exact (Lexer.next_fair (Lexer.start_quiet source) hn).1

theorem Parser.left_lt_budget (p : Parser) : p.left + 1 < p.budget := by
  have := p.left_le_lexer
  have := p.lexer.left_le_remaining
  unfold budget
  omega

/-! ## Rules that agree -/

/-- A rule started at a parser passes tokens and ends where `post` holds of its value, or fails,
but not because a bound is used up. -/
def Proceeds {α : Type} (p : Parser) (post : α → Parser → Prop) :
    EStateM.Result SyntaxError Parser α → Prop
  | .ok v q => (∃ ts, p.Passes ts q) ∧ post v q
  | .error error _ => error.cause ≠ .stalled

/-- Started where `pre` holds, two rules do the same, and they proceed. -/
def Agrees {α : Type} (pre : Parser → Prop) (x y : Parse α) (post : α → Parser → Prop) : Prop :=
  ∀ ⦃p⦄, pre p → x p = y p ∧ Proceeds p post (x p)

/-- Fewer than `n` tokens are to come. -/
structure Within (n : Nat) (p : Parser) : Prop where
  quiet : p.lexer.Quiet
  left : p.left < n

theorem Within.mono {n k : Nat} {p : Parser} (h : Within k p) (hk : k ≤ n) : Within n p :=
  ⟨h.quiet, Nat.lt_of_lt_of_le h.left hk⟩

/-- Fewer than `n` tokens are to come, the first of which is given. -/
def WithinAt (n : Nat) (t : Token) (p : Parser) : Prop := Within n p ∧ p.token = t

/-- Rules that agree and pass a token. -/
abbrev Moves {α : Type} (n : Nat) (x y : Parse α) : Prop :=
  Agrees (Within n) x y fun _ => Within (n - 1)

/-- One more item after a separator, if there is one. -/
def nextItem? {α : Type} (separator : String) (last : Token → Bool) (item : Parse α) :
    Parse (Option α) := do
  if ← accept separator then
    if last (← token) then return none
    return some (← item)
  return none

theorem following_eq_many {α : Type} (separator : String) (last : Token → Bool) (item : Parse α)
    (b : Nat) : following separator last item b = many (nextItem? separator last item) b :=
  rfl

theorem Parser.Passes.within {p q : Parser} {ts : List Token} {n : Nat} (h : p.Passes ts q)
    (hp : Within n p) : Within (n - ts.length) q := by
  have fewer := h.left_le hp.quiet
  have := hp.left
  exact ⟨h.quiet hp.quiet, by omega⟩

end Grammar

end SdkUsage
