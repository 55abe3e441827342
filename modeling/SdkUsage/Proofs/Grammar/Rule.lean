/-
A logic of grammar rules. `Ensures pre rule post` says what holds after a rule
that succeeds. `Leads pre x y post bad` says of two rules that they do the same,
and in addition what is true of the error where they fail. Both have a law for
each way in which rules are put together, so that a fact about all rules is
proved along their text.
-/
import SdkUsage.Grammar.Parse

namespace SdkUsage.Grammar

/-- Started where `pre` holds, a rule that succeeds ends where `post` holds of
its value. -/
def Ensures {α : Type} (pre : Parser → Prop) (rule : Parse α) (post : α → Parser → Prop) : Prop :=
  ∀ ⦃p v q⦄, pre p → rule p = .ok v q → post v q

namespace Ensures

variable {α β : Type} {pre : Parser → Prop} {post : α → Parser → Prop}

theorem pure {v : α} (h : ∀ p, pre p → post v p) : Ensures pre (pure v) post := by
  intro p w q hp heq
  cases heq
  exact h p hp

theorem bind {x : Parse β} {f : β → Parse α} {m : β → Parser → Prop} (hx : Ensures pre x m)
    (hf : ∀ b, Ensures (m b) (f b) post) : Ensures pre (x >>= f) post := by
  intro p v q hp heq
  simp only [Bind.bind, EStateM.bind] at heq
  split at heq
  · next b p' hb => exact hf b (hx hp hb) heq
  · cases heq

theorem weaken {rule : Parse α} {pre' : Parser → Prop} {post' : α → Parser → Prop}
    (h : Ensures pre rule post) (hpre : ∀ p, pre' p → pre p) (hpost : ∀ v p, post v p → post' v p) :
    Ensures pre' rule post' :=
  fun _ _ _ hp heq => hpost _ _ (h (hpre _ hp) heq)

theorem token : Ensures pre token fun t p => pre p ∧ p.token = t := by
  intro p v q hp heq
  cases heq
  exact ⟨hp, rfl⟩

theorem fail {cause : SyntaxError.Cause} : Ensures pre (fail cause : Parse α) post := by
  intro p v q _ heq
  cases heq

end Ensures

/-- A rule ends where `post` holds of its value, or fails with an error of which `bad` holds. -/
def Delivers {α : Type} (post : α → Parser → Prop) (bad : SyntaxError → Prop) :
    EStateM.Result SyntaxError Parser α → Prop
  | .ok v q => post v q
  | .error e _ => bad e

/-- Started where `pre` holds, two rules do the same, and end as `post` and `bad` say. -/
def Leads {α : Type} (pre : Parser → Prop) (x y : Parse α) (post : α → Parser → Prop)
    (bad : SyntaxError → Prop) : Prop :=
  ∀ ⦃p⦄, pre p → x p = y p ∧ Delivers post bad (x p)

namespace Leads

variable {α β : Type} {pre : Parser → Prop} {post : α → Parser → Prop} {bad : SyntaxError → Prop}

theorem bind {x y : Parse β} {f f' : β → Parse α} {mid : β → Parser → Prop}
    (hx : Leads pre x y mid bad) (hf : ∀ v, Leads (mid v) (f v) (f' v) post bad) :
    Leads pre (x >>= f) (y >>= f') post bad := by
  intro p hp
  obtain ⟨same, delivers⟩ := hx hp
  simp only [Bind.bind, EStateM.bind, ← same]
  cases hr : x p with
  | ok v q =>
    rw [hr] at delivers
    exact hf v delivers
  | error error q =>
    rw [hr] at delivers
    exact ⟨rfl, delivers⟩

theorem weaken {x y : Parse α} {pre' : Parser → Prop} {post' : α → Parser → Prop}
    (h : Leads pre x y post bad) (hpre : ∀ p, pre' p → pre p)
    (hpost : ∀ v p, post v p → post' v p) : Leads pre' x y post' bad := by
  intro p hp
  obtain ⟨same, delivers⟩ := h (hpre p hp)
  refine ⟨same, ?_⟩
  cases hr : x p with
  | ok v q =>
    rw [hr] at delivers
    exact hpost v q delivers
  | error error q =>
    rw [hr] at delivers
    exact delivers

end Leads

end SdkUsage.Grammar
