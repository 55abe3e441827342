/-
What it means that an analysis gives an answer: the source parses, the run over
its module succeeds, and the answer is what is collected after it.

`Reports` says of a method that the answer holds it. It can be evaluated, so
that sources serve as examples.
-/
import SdkUsage.Analysis
import SdkUsage.Proofs.CallMap
import SdkUsage.Proofs.Inference.Run

namespace SdkUsage

open SdkUsage.Tree SdkUsage.Inference

variable {config : Config} {application : Bool} {source : Source}

namespace Analysis

theorem parse_ok {module : Module} :
    parse config application source = .ok module ↔
      ∃ parsed, SdkUsage.parse source = .ok parsed ∧
        module = if application then parsed.invokeEntryPoints config.routeMethod else parsed := by
  unfold parse
  cases SdkUsage.parse source with
  | error e =>
    constructor
    · rintro ⟨⟩
    · rintro ⟨_, ⟨⟩, _⟩
  | ok parsed =>
    constructor
    · rintro ⟨⟩
      exact ⟨parsed, rfl, rfl⟩
    · rintro ⟨_, ⟨⟩, rfl⟩
      rfl

/-- The state in which the run over a module begins. -/
def initial (module : Module) : State :=
  .start (.build module) module.expressions module.statements

theorem infer_ok {module : Module} {state : State} :
    infer config module = .ok state ↔
      ∃ u, analyzeModule config module (initial module) = .ok u state := by
  cases hr : analyzeModule config module (initial module) with
  | ok u after =>
    have answer : infer config module = .ok after := by
      unfold initial at hr
      simp only [infer, hr]
    rw [answer]
    constructor
    · rintro ⟨⟩
      exact ⟨u, rfl⟩
    · rintro ⟨_, ⟨⟩⟩
      rfl
  | error e after =>
    have failure : infer config module = .error (.inference e) := by
      unfold initial at hr
      simp only [infer, hr]
    rw [failure]
    constructor
    · rintro ⟨⟩
    · rintro ⟨_, ⟨⟩⟩

/-- A run over a module, as steps. -/
theorem steps_of_infer {module : Module} {state : State} (h : infer config module = .ok state) :
    Steps config module (initial module).atModule state := by
  obtain ⟨u, hr⟩ := infer_ok.1 h
  exact analyzeModule_steps hr

end Analysis

theorem analyze_ok {calls : CallMap} :
    analyze config application source = .ok calls ↔
      ∃ module state, Analysis.parse config application source = .ok module ∧
        Analysis.infer config module = .ok state ∧ calls = .collect state.types module := by
  unfold analyze
  cases Analysis.parse config application source with
  | error e =>
    constructor
    · rintro ⟨⟩
    · rintro ⟨_, _, ⟨⟩, _⟩
  | ok module =>
    change (Analysis.infer config module >>= fun state => _) = _ ↔ _
    cases hi : Analysis.infer config module with
    | error e =>
      constructor
      · rintro ⟨⟩
      · rintro ⟨_, _, ⟨⟩, h, _⟩
        cases hi.symm.trans h
    | ok state =>
      constructor
      · rintro ⟨⟩
        exact ⟨module, state, rfl, hi, rfl⟩
      · rintro ⟨_, _, ⟨⟩, h, rfl⟩
        cases hi.symm.trans h
        rfl

theorem exists_ok {ε α : Type} {result : Except ε α} (h : result.isOk = true) :
    ∃ value, result = .ok value := by
  cases result with
  | error e => cases h
  | ok value => exact ⟨value, rfl⟩

/-- The analysis of a source succeeds and reports a method of a service. -/
def Reports (config : Config) (application : Bool) (source : Source) (service method : String) :
    Prop :=
  ∃ calls, analyze config application source = .ok calls ∧ method ∈ calls.methods service

instance (service method : String) :
    Decidable (Reports config application source service method) :=
  match h : analyze config application source with
  | .ok calls => decidable_of_iff (method ∈ calls.methods service)
      ⟨fun hm => ⟨calls, h, hm⟩, fun ⟨_, hc, hm⟩ => by cases h.symm.trans hc; exact hm⟩
  | .error _ => .isFalse fun ⟨_, hc, _⟩ => by cases h.symm.trans hc

end SdkUsage
