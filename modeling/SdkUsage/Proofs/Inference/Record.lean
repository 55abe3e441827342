/-
What is left of a run. Each node has room for one type, and a function that is
called again is analyzed again, so that types found earlier are replaced. What
a node has in the end is the last type that the trace says it got; for a call
this is the last type that it was found to have.

An invocation that was found at a call is therefore reported if the call was
not found to be something else later, and can be lost if it was.
-/
import SdkUsage.Proofs.Analysis
import SdkUsage.Proofs.Grammar.Statement
import SdkUsage.Proofs.Inference.Place

namespace SdkUsage

open SdkUsage.Tree SdkUsage.Inference

namespace Inference

/-! ## Last types -/

/-- The type that an expression got last. -/
def lastExpr (expr : Nat) : List Event → Option Ty
  | [] => none
  | .annotated i type :: trace => if i = expr then type else lastExpr expr trace
  | _ :: trace => lastExpr expr trace

/-- The type that a statement got last. -/
def lastStmt (stmt : Nat) : List Event → Option Ty
  | [] => none
  | .returned i type :: trace => if i = stmt then some type else lastStmt stmt trace
  | .credited i type :: trace => if i = stmt then some type else lastStmt stmt trace
  | _ :: trace => lastStmt stmt trace

/-- The type that a node got last. -/
def lastType (trace : List Event) : Node → Option Ty
  | .expr e => lastExpr e.index trace
  | .stmt t => lastStmt t.index trace

/-- The last type that a call was found to have. -/
def lastResult (call : Nat) : List Event → Option Ty
  | [] => none
  | .called i _ (some type) :: trace => if i = call then some type else lastResult call trace
  | _ :: trace => lastResult call trace

/-- The type that a call is found to have at an event. -/
def Event.result? : Event → Option Ty
  | .called _ _ result => result
  | _ => none

/-- The tables say what the trace says. -/
structure State.Recorded (s : State) : Prop where
  exprs : ∀ i, s.types.exprs.get? i = lastExpr i s.trace
  stmts : ∀ i, s.types.stmts.get? i = lastStmt i s.trace

theorem get?_put {table : IndexTable Ty} {i j : Nat} {value : Option Ty} (h : i < table.size) :
    (table.put i value).get? j = if i = j then value else table.get? j := by
  by_cases hj : i = j
  · subst hj
    rw [if_pos rfl, IndexTable.get?_put_self value h]
  · rw [if_neg hj, IndexTable.get?_put_other value (Ne.symm hj)]

theorem State.Recorded.act {s : State} (h : s.Recorded) {action : Action} (hf : action.Fits s) :
    (s.act action).Recorded := by
  constructor
  · intro i
    cases action with
    | annotate j type => exact (get?_put hf).trans (by rw [h.exprs]; rfl)
    | call j callee result =>
      cases result with
      | none => exact h.exprs i
      | some type => exact (get?_put hf).trans (by rw [h.exprs]; rfl)
    | _ => exact h.exprs i
  · intro i
    cases action with
    | record j type => exact (get?_put hf).trans (by rw [h.stmts]; rfl)
    | credit j type => exact (get?_put hf).trans (by rw [h.stmts]; rfl)
    | call j callee result => cases result <;> exact h.stmts i
    | _ => exact h.stmts i

variable {config : Config} {module : Module}

/-- **A node has the type it got last.** -/
theorem Steps.recorded {s s' : State} (h : Steps config module s s') (hs : s.Recorded) :
    s'.Recorded := by
  refine h.keeps ?_ ?_ ?_ hs
  · intro t action ht _ hf
    exact ht.act hf
  · intro t name args d ns ht _ _
    exact ⟨ht.exprs, ht.stmts⟩
  · intro t t' name args d ns _ _ ht' _ hf
    have left : (t'.left t.frame d).Recorded := ⟨ht'.exprs, ht'.stmts⟩
    exact left.act hf

theorem State.recorded_start (module : Module) : (Analysis.initial module).atModule.Recorded where
  exprs := fun i => IndexTable.get?_ofSize module.expressions i
  stmts := fun i => IndexTable.get?_ofSize module.statements i

theorem State.Recorded.ofNode {s : State} (h : s.Recorded) (node : Node) :
    s.types.ofNode? node = lastType s.trace node := by
  cases node with
  | expr e => exact h.exprs e.index
  | stmt t => exact h.stmts t.index

/-! ## Calls -/

/-- Calls that were found to have a type are calls of the module, and the type
that a call got last is the one that it was last found to have. -/
structure State.CallsRecorded (module : Module) (s : State) : Prop where
  placed : s.Placed module
  sites : ∀ i callee result, .called i callee result ∈ s.trace →
    ∃ site func args keywords, .expr (.call site func args keywords) ∈ module.nodes ∧ site.index = i
  results : ∀ site func args keywords, .expr (.call site func args keywords) ∈ module.nodes →
    lastExpr site.index s.trace = lastResult site.index s.trace

namespace State.CallsRecorded

variable {s : State}

/-- Events about other things change nothing for calls. -/
theorem other (h : s.CallsRecorded module) {s' : State} {event : Event} (hp : s'.Placed module)
    (htrace : s'.trace = event :: s.trace) (ha : ∀ i type, event ≠ .annotated i type)
    (hc : ∀ i callee result, event ≠ .called i callee result) : s'.CallsRecorded module := by
  refine ⟨hp, fun i callee result hm => ?_, fun site func args keywords hn => ?_⟩
  · rw [htrace] at hm
    rcases List.mem_cons.1 hm with hm | hm
    · exact absurd hm.symm (hc i callee result)
    · exact h.sites i callee result hm
  · rw [htrace]
    have before := h.results site func args keywords hn
    cases event with
    | annotated i type => exact absurd rfl (ha i type)
    | called i callee result => exact absurd rfl (hc i callee result)
    | _ => exact before

theorem act (h : s.CallsRecorded module) (hm : module.Numbered) {action : Action}
    (hc : Cause config module s action) : (s.act action).CallsRecorded module := by
  have placed := h.placed.act hc
  cases action with
  | annotate i type =>
    -- The expression is not a call, so that its number is not that of a call.
    obtain ⟨e, he, rfl, hne⟩ := hc.annotated
    refine ⟨placed, fun i callee result hi => ?_, fun site func args keywords hn => ?_⟩
    · rcases List.mem_append.1 hi with hi | hi
      · cases List.mem_singleton.1 hi
      · exact h.sites i callee result hi
    · have other : e.index ≠ site.index := fun hi =>
        hne _ _ _ _ (hm.expr_eq (h.placed.mem_nodes he) hn hi)
      change lastExpr site.index (.annotated e.index type :: s.trace) = _
      rw [lastExpr, if_neg other]
      exact h.results site func args keywords hn
  | call i callee result =>
    cases hc with
    | @called site func args keywords _ _ hn ho =>
      have node := h.placed.mem_nodes hn
      -- The event is about this call.
      have here : ∀ j callee' result',
          .called j callee' result' ∈ (Action.call site.index callee result).events →
          site.index = j := by
        intro j callee' result' hj
        cases result <;> simp_all [Action.events]
      refine ⟨placed, fun j callee' result' hj => ?_, fun site' func' args' keywords' hn' => ?_⟩
      · rcases List.mem_append.1 hj with hj | hj
        · exact ⟨site, func, args, keywords, node, here _ _ _ hj⟩
        · exact h.sites j callee' result' hj
      · have before := h.results site' func' args' keywords' hn'
        cases result with
        | none => exact before
        | some type =>
          change (if _ then _ else _) = (if _ then _ else _)
          split
          · rfl
          · exact before
  | record i type => exact h.other placed rfl (by rintro _ _ ⟨⟩) (by rintro _ _ _ ⟨⟩)
  | credit i type => exact h.other placed rfl (by rintro _ _ ⟨⟩) (by rintro _ _ _ ⟨⟩)
  | bind scope name type => exact h.other placed rfl (by rintro _ _ ⟨⟩) (by rintro _ _ _ ⟨⟩)
  | define scope name d => exact h.other placed rfl (by rintro _ _ ⟨⟩) (by rintro _ _ _ ⟨⟩)
  | skip d => exact h.other placed rfl (by rintro _ _ ⟨⟩) (by rintro _ _ _ ⟨⟩)

end State.CallsRecorded

theorem Steps.callsRecorded {s s' : State} (hm : module.Numbered)
    (h : Steps config module s s') (hs : s.CallsRecorded module) : s'.CallsRecorded module := by
  refine h.keeps ?_ ?_ ?_ hs
  · intro t action ht hc _
    exact ht.act hm hc
  · intro t name args d ns ht hc _
    exact ht.other (ht.placed.enter (ht.placed.of_calls hc) ns) rfl (by rintro _ _ ⟨⟩)
      (by rintro _ _ _ ⟨⟩)
  · intro t t' name args d ns ht _ ht' _ _
    have left : (t'.left t.frame d).CallsRecorded module :=
      ht'.other ⟨ht.placed.function, ht.placed.active, ht'.placed.definitions⟩ rfl
        (by rintro _ _ ⟨⟩) (by rintro _ _ _ ⟨⟩)
    exact left.other (ht.placed.resume ht'.placed name d) rfl (by rintro _ _ ⟨⟩)
      (by rintro _ _ _ ⟨⟩)

theorem State.callsRecorded_start (module : Module) :
    (Analysis.initial module).atModule.CallsRecorded module where
  placed := State.placed_start module _ _ _
  sites := by rintro _ _ _ ⟨⟩
  results := fun _ _ _ _ _ => rfl

end Inference

/-- **A report is what nodes had last.** A method is reported exactly if the last
type of some node is its invocation. So an invocation that was found at a call
at some moment is reported where it is also the last type found there. -/
theorem reported_iff_last {config : Config} {source : Source} {calls : CallMap}
    (h : analyze config false source = .ok calls) :
    ∃ module state, parse source = .ok module ∧ Analysis.infer config module = .ok state ∧
      (∀ service method, method ∈ calls.methods service ↔
        ∃ node ∈ module.nodes, lastType state.trace node = some (.invocation service method)) ∧
      ∀ i callee service method,
        .called i callee (some (.invocation service method)) ∈ state.trace →
        lastResult i state.trace = some (.invocation service method) →
        method ∈ calls.methods service := by
  obtain ⟨module, state, hp, hi, rfl⟩ := analyze_ok.1 h
  obtain ⟨_, hp, rfl⟩ := Analysis.parse_ok.1 hp
  have steps := Analysis.steps_of_infer hi
  have recorded := steps.recorded (State.recorded_start module)
  have atCalls := steps.callsRecorded (numbered_of_parse hp) (State.callsRecorded_start module)
  have reported : ∀ service method, method ∈ (CallMap.collect state.types module).methods service ↔
      ∃ node ∈ module.nodes, lastType state.trace node = some (.invocation service method) := by
    intro service method
    simp only [CallMap.mem_methods_collect, recorded.ofNode]
  refine ⟨module, state, hp, hi, reported, fun i callee service method hc hl => ?_⟩
  obtain ⟨site, func, args, keywords, hn, rfl⟩ := atCalls.sites i callee _ hc
  refine (reported service method).2 ⟨_, hn, ?_⟩
  exact (atCalls.results site func args keywords hn).trans hl

/-- A call at which a method is called first and the client factory later. -/
def calledTwice : Source where
  file := "main.py"
  text := "import boto3\ndef f(g):\n    g('s3')\nf(boto3.client('s3').m)\nf(boto3.client)\n"

theorem calledTwice_last :
    ∃ calls, analyze {} false calledTwice = .ok calls ∧
    ∃ module state, parse calledTwice = .ok module ∧ Analysis.infer {} module = .ok state ∧
      (∀ service method, method ∈ calls.methods service ↔
        ∃ node ∈ module.nodes, lastType state.trace node = some (.invocation service method)) ∧
      ∀ i callee service method,
        .called i callee (some (.invocation service method)) ∈ state.trace →
        lastResult i state.trace = some (.invocation service method) →
        method ∈ calls.methods service := by
  have succeeds : (analyze {} false calledTwice).isOk = true := by decide +kernel
  obtain ⟨calls, h⟩ := exists_ok succeeds
  exact ⟨calls, h, reported_iff_last h⟩

/-- The run over a source finds, at some moment, a call that invokes a method. -/
def Finds (config : Config) (source : Source) (service method : String) : Prop :=
  ∃ module state, parse source = .ok module ∧ Analysis.infer config module = .ok state ∧
    ∃ event ∈ state.trace, event.result? = some (.invocation service method)

instance (config : Config) (source : Source) (service method : String) :
    Decidable (Finds config source service method) :=
  match hp : parse source with
  | .error _ => .isFalse fun ⟨_, _, h, _⟩ => by cases hp.symm.trans h
  | .ok module =>
    match hi : Analysis.infer config module with
    | .error _ => .isFalse fun ⟨_, _, h, h', _⟩ => by
        cases hp.symm.trans h
        cases hi.symm.trans h'
    | .ok state =>
      decidable_of_iff (∃ event ∈ state.trace, event.result? = some (.invocation service method))
        ⟨fun h => ⟨module, state, hp, hi, h⟩, fun ⟨_, _, h, h', hf⟩ => by
          cases hp.symm.trans h
          cases hi.symm.trans h'
          exact hf⟩

/-- **A call that is analyzed again can lose what it was found to invoke.** -/
theorem calledTwice_loses :
    Finds {} calledTwice "s3" "m" ∧ (analyze {} false calledTwice).isOk = true ∧
      ¬Reports {} false calledTwice "s3" "m" := by
  decide +kernel

end SdkUsage
