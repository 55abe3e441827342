/-
Runs that fail, and runs that follow one another.

A run that fails keeps what it did before, and comes back from where it stops through all functions
it is in. A property that every step keeps is `Kept`, and holds after any number of runs over a
module (`afterRuns`), whether they succeeded or failed.
-/
import SdkUsage.Proofs.Analysis

namespace SdkUsage.Inference

open SdkUsage.Tree

variable {config : Config} {module : Module} {enter : Function → Run Unit} {s s' : State}
  {e : InferenceError}

/-- The body of a function is analyzed as its statements are. -/
theorem enterBody_leads {room : Nat} {d : Function} (hf : s.frame.function = some d) :
    Leads (stepping config module (enterBody config room)) s (enterBody config (room + 1) d)
      fun _ _ => True := by
  refine visitAll_leads (enterBody_steps config module room) fun t ht => .stmt ?_
  rw [Frame.body, hf]
  exact ht

theorem module_leads (room : Nat) :
    Leads (stepping config module (enterBody config room)) s.atModule
      (visitAll config (enterBody config room) module.body) fun _ _ => True :=
  visitAll_leads (enterBody_steps config module room) fun _ ht => .stmt ht

/-- A run fails outside of bodies or in one. -/
theorem Fails.cases_body (h : Fails config module enter s e s') :
    Fails config module (fun _ => pure ()) s e s' ∨
      ∃ s₁ name args d ns s₂, Steps config module s s₁ ∧ s₁.Calls module name args d ns ∧
        Free config s₁ d ∧ enter d (s₁.entered ns d) = .error e s₂ := by
  cases h with
  | fault steps fault => exact .inl (.fault steps fault)
  | found steps hc hf he => exact .inl (.found steps hc hf he)
  | body steps hc hfree hb => exact .inr ⟨_, _, _, _, _, _, steps, hc, hfree, hb⟩
  | unsigned steps hc hfree body hf he => exact .inl (.unsigned steps hc hfree body hf he)

/-- **A run that fails does so outside of bodies somewhere,** if these may be nested as
deeply as the module has functions that are not yet active. -/
theorem Fails.outside {P : State → Prop} (steps : ∀ {s s'}, P s → Steps config module s s' → P s')
    (enter : ∀ {s name args d ns}, P s → s.Calls module name args d ns → Free config s d →
      P (s.entered ns d))
    (length : ∀ {s}, P s → s.frame.active.length ≤ module.functions.length) {bound : Nat}
    (hp : P s) (room : module.functions.length ≤ bound + s.frame.active.length)
    (h : Fails config module (enterBody config bound) s e s') :
    ∃ t t', P t ∧ Fails config module (fun _ => pure ()) t e t' := by
  induction bound generalizing s s' e with
  | zero =>
    rcases h.cases_body with h | ⟨s₁, name, args, d, ns, s₂, first, hc, hfree, -⟩
    · exact ⟨s, s', hp, h⟩
    · -- One more function would be active than there are.
      have le : s₁.frame.active.length + 1 ≤ _ := length (enter (steps hp first) hc hfree)
      rw [first.frame_eq] at le
      omega
  | succ bound ih =>
    rcases h.cases_body with h | ⟨s₁, name, args, d, ns, s₂, first, hc, hfree, hb⟩
    · exact ⟨s, s', hp, h⟩
    · refine ih (enter (steps hp first) hc hfree) ?_ ((enterBody_leads rfl).error hb)
      show module.functions.length ≤ bound + (s₁.frame.active.length + 1)
      rw [first.frame_eq]
      omega

/-- A property that no step of a run breaks, however the run ends. -/
structure Kept (config : Config) (module : Module) (P : State → Prop) : Prop where
  act : ∀ {s action}, P s → Cause config module s action → action.Fits s → P (s.act action)
  enter : ∀ {s name args d ns}, P s → s.Calls module name args d ns → Free config s d →
    P (s.entered ns d)
  leave : ∀ {s s' d ns}, P s → P s' → s'.frame = s.frame.enter ns d → P (s'.left s.frame d)
  sign : ∀ {s scope name type}, P s → (Action.bind scope name type).Fits s →
    P (s.act (.bind scope name type))
  found : ∀ {s call callee result}, P s →
    P { s with trace := .called call callee result :: s.trace }
  again : ∀ {s}, P s → P s.atModule

namespace Kept

variable {P : State → Prop} (h : Kept config module P)

include h

theorem steps (hr : Steps config module s s') (hp : P s) : P s' :=
  hr.keeps h.act h.enter (fun hp _ hp' hs hf => h.sign (h.leave hp hp' hs) hf) hp

/-- A run that fails ends in the frame it began in. -/
theorem fails (henter : ∀ {d s e s'}, s.frame.function = some d → P s →
      enter d s = .error e s' → P s' ∧ s'.frame = s.frame)
    (hr : Fails config module enter s e s') (hp : P s) : P s' ∧ s'.frame = s.frame := by
  cases hr with
  | fault steps _ => exact ⟨h.steps steps hp, steps.frame_eq⟩
  | found steps _ _ _ => exact ⟨h.found (h.steps steps hp), steps.frame_eq⟩
  | body steps hc hfree hb =>
    have here := h.steps steps hp
    obtain ⟨inner, frame⟩ := henter rfl (h.enter here hc hfree) hb
    exact ⟨h.leave here inner frame, steps.frame_eq⟩
  | unsigned steps hc hfree body _ _ =>
    have here := h.steps steps hp
    exact ⟨h.leave here (h.steps body (h.enter here hc hfree)) body.frame_eq, steps.frame_eq⟩

theorem enterBody (room : Nat) {d : Function} (hf : s.frame.function = some d) (hp : P s)
    (hr : enterBody config room d s = .error e s') : P s' ∧ s'.frame = s.frame := by
  induction room generalizing s e s' d with
  | zero =>
    cases hr
    exact ⟨hp, rfl⟩
  | succ room ih => exact h.fails ih ((enterBody_leads hf).error hr) hp

end Kept

/-- The state that a run leaves, whether it succeeds or fails. -/
def ended : EStateM.Result InferenceError State Unit → State
  | .ok _ state => state
  | .error _ state => state

/-- **What no step breaks holds after a run,** with room for any number of bodies. -/
theorem Kept.ended {P : State → Prop} (h : Kept config module P) (hp : P s.atModule) (room : Nat) :
    let after := Inference.ended
      (visitAll config (Inference.enterBody config room) module.body s.atModule)
    P after ∧ after.frame = s.atModule.frame := by
  have leads : Leads (stepping config module _) s.atModule _ _ := module_leads room
  cases hr : visitAll config (Inference.enterBody config room) module.body s.atModule with
  | ok u s' => exact ⟨h.steps (leads.ok hr).1 hp, (leads.ok hr).1.frame_eq⟩
  | error e s' => exact h.fails (h.enterBody room) (leads.error hr) hp

/-- What is known after a number of runs over a module, with its own table. -/
def afterRuns (config : Config) (module : Module) : Nat → State
  | 0 => Analysis.initial module
  | n + 1 => ended (analyzeModule config module (afterRuns config module n))

/-- **What no step breaks holds after any number of runs.** -/
theorem Kept.afterRuns {P : State → Prop} (h : Kept config module P)
    (start : P (Analysis.initial module)) (n : Nat) : P (afterRuns config module n) := by
  induction n with
  | zero => exact start
  | succ n ih => exact (h.ended (h.again ih) _).1

end SdkUsage.Inference
