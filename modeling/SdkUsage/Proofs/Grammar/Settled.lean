/-
Bounds that are large enough do not matter. What `Tracked` says where nothing is watched is that
rules agree, and so the steps of the recursion of the grammar are told in terms of the number
of tokens to come alone: rules that come back to settled rules (`Recursion.Settled`,
`Nesting.Settled`) after a token are settled for one token more.
-/
import SdkUsage.Proofs.Grammar.Statement

namespace SdkUsage.Grammar

open SdkUsage.Tree

variable {α : Type} {n m : Nat} {x y : Parse α} {gain : Gain α} {p : Parser} {source : Source}

/-! ## Rules that agree -/

theorem Gain.proceeds {result : EStateM.Result SyntaxError Parser α} (hp : Within m p)
    (h : Delivers (gain.Holds False source p p) (Refused False source) result) :
    Proceeds p (fun v => Within (if gain.passed v then m - 1 else m)) result := by
  cases result with
  | ok v q =>
    obtain ⟨ts, passes, moved⟩ := h.1.passes
    refine ⟨⟨ts, passes⟩, ?_⟩
    dsimp only
    split
    · next hv =>
      have := List.length_pos_iff.2 (moved hv)
      exact (passes.within hp).mono (by omega)
    · exact (passes.within hp).mono (Nat.sub_le _ _)
  | error error q => exact h.1

theorem Reads.agrees (h : Reads False n x y gain) (hm : m ≤ n) :
    Agrees (Within m) x y fun v => Within (if gain.passed v then m - 1 else m) := by
  intro p hp
  obtain ⟨same, delivers⟩ := @h ⟨"", ""⟩ p (hp.mono hm) nofun
  exact ⟨same, Gain.proceeds hp delivers⟩

theorem Takes.agrees {t : Token} (h : Takes False n t.span false [] (some t) x y gain)
    (hm : m ≤ n) :
    Agrees (WithinAt m t) x y fun v => Within (if gain.passed v then m - 1 else m) := by
  rintro p ⟨hp, ht⟩
  obtain ⟨same, delivers⟩ := @Takes.delivers _ _ _ _ _ _ _ ⟨"", ""⟩ _ h (hp.mono hm) ht nofun
  exact ⟨same, Gain.proceeds hp delivers⟩

/-- Where nothing is watched, it does not matter where the nodes come from. -/
theorem Takes.silent {span : Span} {given : List Node}
    (h : Takes False n span false given none x y gain) : Reads False n x y gain := by
  intro source p hp _
  obtain ⟨same, delivers⟩ := h source { p with token := { p.token with span := span } } p rfl hp
    ⟨⟨⟨[], .nil rfl rfl, nofun⟩, nofun⟩, nofun⟩
  refine ⟨same, ?_⟩
  cases hr : x p with
  | ok v q =>
    rw [hr] at delivers
    exact ⟨⟨delivers.1.passes, nofun⟩, nofun⟩
  | error error q =>
    rw [hr] at delivers
    exact delivers

/-- Rules that agree and pass a token read, where nothing is watched. -/
theorem Takes.of_proceeds {next : Option Token} {span : Span} {b : Bool}
    {given : List Node} (h : ∀ p, Within n p → (∀ t ∈ next, p.token = t) →
      x p = y p ∧ Proceeds p (fun _ => Within p.left) (x p)) :
    Takes False n span b given next x y gain := by
  intro source start mark _ hm p hp
  obtain ⟨same, proceeds⟩ := h p (hp.1.within hm) hp.2
  refine ⟨same, ?_⟩
  cases hr : x p with
  | ok v q =>
    rw [hr] at proceeds
    obtain ⟨ts, passes, -⟩ := hp.1.passes
    obtain ⟨⟨us, further⟩, after⟩ := proceeds
    refine ⟨⟨⟨ts ++ us, passes.trans further, fun _ => ?_⟩, nofun⟩, nofun⟩
    exact List.append_ne_nil_of_right_ne_nil _ (further.ne_nil after.left)
  | error error q =>
    rw [hr] at proceeds
    exact ⟨proceeds, nofun⟩

theorem Reads.of_moves (h : ∀ m, m ≤ n → Moves m x y) : Reads False n x y gain :=
  .on fun _ => .of_proceeds fun p hp _ => h (p.left + 1) hp.left ⟨hp.quiet, Nat.lt_succ_self _⟩

/-! ## Settled rules -/

namespace Recursion

/-- The rules to come back to agree, for up to `n` tokens, and so do the bounds. -/
structure Settled (g g' : Recursion) (n : Nat) : Prop where
  bound : n ≤ g.bound
  bound' : n ≤ g'.bound
  expr : ∀ m, m ≤ n → ∀ level, Moves m (g.expr level) (g'.expr level)

variable {g g' : Recursion}

theorem settled_iff_tracked : g.Settled g' n ↔ Tracked False g g' n :=
  ⟨fun h => ⟨h.bound, h.bound', fun level => .of_moves fun m hm => h.expr m hm level⟩,
    fun h => ⟨h.bound, h.bound', fun _ hm level => (h.expr level).agrees hm⟩⟩

/-- **A level of expressions comes back to others only after a token:** on `n + 1` tokens it
does what the others do on `n`. -/
theorem level_moves (hg : g.Settled g' n) (level : Level) :
    Moves (n + 1) (g.level level) (g'.level level) :=
  (level_reads (settled_iff_tracked.1 hg) level).agrees (Nat.le_refl _)

end Recursion

namespace Nesting

/-- The rules to come back to agree: those for statements for up to `n` tokens, those for
expressions for one more. -/
structure Settled (g g' : Nesting) (n : Nat) : Prop where
  rules : g.toRecursion.Settled g'.toRecursion (n + 1)
  statement : ∀ m, m ≤ n → Moves m (g.stmts .statement) (g'.stmts .statement)
  elif : ∀ m, m ≤ n → ∀ t : Token, t.word = "elif" →
    Agrees (WithinAt m t) (g.stmts .elif) (g'.stmts .elif) fun _ => Within (m - 1)

variable {g g' : Nesting}

theorem settled_iff_tracked : g.Settled g' n ↔ Tracked False g g' n := by
  constructor
  · intro h
    refine ⟨Recursion.settled_iff_tracked.1 h.rules, .of_moves h.statement, fun t ht => ?_⟩
    refine .of_proceeds fun p hp hn => ?_
    exact h.elif (p.left + 1) hp.left t ht ⟨⟨hp.quiet, Nat.lt_succ_self _⟩, hn t rfl⟩
  · intro h
    exact ⟨Recursion.settled_iff_tracked.2 h.rules, fun _ hm => h.statement.agrees hm,
      fun _ hm t ht => (h.elif t ht).agrees hm⟩

/-- **A statement comes back to statements only after a token:** on `n + 1` tokens it does what
they do on `n`. -/
theorem statement_moves (hg : g.Settled g' n) : Moves (n + 1) g.statement g'.statement :=
  (statement_reads (settled_iff_tracked.1 hg)).agrees (Nat.le_refl _)

theorem elif_agrees (hg : g.Settled g' n) {t : Token} (ht : t.word = "elif") :
    Agrees (WithinAt (n + 1) t) (g.entry .elif) (g'.entry .elif) fun _ => Within n :=
  (single_takes (ifStmt_takes (settled_iff_tracked.1 hg) ht rfl)).agrees (Nat.le_refl _)

end Nesting

/-- **A rule for expressions is the same under all bounds that exceed the number of tokens.** -/
theorem expression_settled {n b b' : Nat} (hb : n ≤ b) (hb' : n ≤ b') :
    Recursion.Settled ⟨b, expression b⟩ ⟨b', expression b'⟩ n :=
  Recursion.settled_iff_tracked.2 (expression_tracked hb hb')

/-- **A rule for statements is the same under all bounds that exceed the number of tokens by
two.** -/
theorem statements_settled {n b b' : Nat} (hb : n < b) (hb' : n < b') :
    Nesting.Settled (rules b) (rules b') n :=
  Nesting.settled_iff_tracked.2 (statements_tracked hb hb')

end SdkUsage.Grammar
