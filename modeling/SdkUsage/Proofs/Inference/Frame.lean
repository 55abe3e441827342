/-
The namespaces in which a run stands. In the module it is the module's; in a
function it is the scope that the table has for the function, with the scope
around the definition as the global one. So a run writes to names of the
module only while it is in no function.
-/
import SdkUsage.Proofs.Inference.Place
import SdkUsage.Proofs.Scope.Build

namespace SdkUsage

open SdkUsage.Tree

variable {d : Function} {ns : Namespace} {module : Module}

/-- A namespace is that of a function in the table of a module. -/
def Namespace.Of (ns : Namespace) (module : Module) (definition : Function) : Prop :=
  ∃ scope, (SymbolTable.build module).FunctionScope definition scope ∧ ns.scope = scope.id ∧
    scope.parent = some ns.global

theorem Namespace.Of.scope_ne_root (h : ns.Of module d) : ns.scope ≠ SymbolTable.root := by
  obtain ⟨scope, hs, hn, -⟩ := h
  rw [hn]
  exact hs.inner

/-- A function has one namespace. -/
theorem Namespace.Of.eq {ns' : Namespace} (h : ns.Of module d) (h' : ns'.Of module d) :
    ns = ns' := by
  obtain ⟨scope, hs, hn, hp⟩ := h
  obtain ⟨scope', hs', hn', hp'⟩ := h'
  have id : scope.id = scope'.id := Option.some.inj (hs.marked.symm.trans hs'.marked)
  cases hs.found.symm.trans (id ▸ hs'.found)
  obtain ⟨inner, global⟩ := ns
  obtain ⟨inner', global'⟩ := ns'
  cases hn.trans hn'.symm
  cases hp.symm.trans hp'
  rfl

/-- A function is entered with its own namespace. -/
theorem Namespace.Of.of_definition (hm : module.Numbered) {env : Environment}
    (ht : env.table = .build module) (hd : .stmt (.functionDef d) ∈ module.nodes)
    {outer : Namespace} (h : env.definitionNamespace outer d = .ok ns) : ns.Of module d := by
  obtain ⟨scope, hs⟩ := SymbolTable.build_function hm hd
  obtain ⟨id, found, hid, hfound, rfl⟩ := Environment.definitionNamespace_ok.1 h
  rw [ht] at hid hfound
  cases hs.marked.symm.trans hid
  cases hs.found.symm.trans hfound
  obtain ⟨parent, -, hp, -⟩ := hs.parent
  exact ⟨scope, hs, rfl, by rw [hp]; rfl⟩

namespace Inference

/-- The namespace of a frame is that of what is analyzed in it. -/
def Frame.Fits (module : Module) (frame : Frame) : Prop :=
  match frame.function with
  | none => frame.ns = .module
  | some definition => frame.ns.Of module definition

/-- A run over a module, with the module's own table. -/
structure State.Framed (module : Module) (s : State) : Prop where
  placed : s.Placed module
  table : s.env.table = .build module
  frame : s.frame.Fits module

namespace State.Framed

variable {config : Config} {module : Module} {s : State}

theorem ns_eq (h : s.Framed module) (hf : s.frame.function = none) : s.frame.ns = .module := by
  have fits := h.frame
  rwa [Frame.Fits, hf] at fits

theorem ns_of (h : s.Framed module) (hf : s.frame.function = some d) : s.frame.ns.Of module d := by
  have fits := h.frame
  rwa [Frame.Fits, hf] at fits

/-- What is analyzed in the module's scope stands in no function. -/
theorem function_eq (h : s.Framed module) (hr : s.frame.ns.scope = SymbolTable.root) :
    s.frame.function = none := by
  cases hf : s.frame.function with
  | none => rfl
  | some d => exact absurd hr (h.ns_of hf).scope_ne_root

theorem within (h : s.Framed module) (hr : s.frame.ns.scope = SymbolTable.root) {n : Node}
    (hn : s.Here module n) : Within module.body n :=
  (State.here_iff (h.function_eq hr)).1 hn

/-- A function that is called is entered with its own namespace. -/
theorem of_calls (h : s.Framed module) (hm : module.Numbered) {name : String} {args : List Expr}
    (hc : s.Calls module name args d ns) : ns.Of module d :=
  .of_definition hm h.table (h.placed.of_calls hc) hc.scope

theorem enter (h : s.Framed module) (hm : module.Numbered) {name : String} {args : List Expr}
    (hc : s.Calls module name args d ns) : (s.entered ns d).Framed module :=
  ⟨h.placed.enter (h.placed.of_calls hc) ns, h.table, h.of_calls hm hc⟩

theorem resume (h : s.Framed module) {s' : State} (h' : s'.Framed module) (name : String)
    (d : Function) : (s'.resumed s.frame name d).Framed module :=
  ⟨h.placed.resume h'.placed name d,
    ((s'.signature s.frame name d).onEnv_table s'.env).trans h'.table, h.frame⟩

end State.Framed

/-- **A run stands in the namespace of what it analyzes.** -/
theorem Steps.framed {config : Config} {s s' : State} (hm : module.Numbered)
    (h : Steps config module s s') (hs : s.Framed module) : s'.Framed module := by
  refine h.keeps ?_ ?_ ?_ hs
  · intro t action ht hc _
    exact ⟨ht.placed.act hc, (action.onEnv_table t.env).trans ht.table, ht.frame⟩
  · intro t name args d ns ht hc _
    exact ht.enter hm hc
  · intro t t' name args d ns ht _ ht' _ _
    exact ht.resume ht' name d

end Inference

end SdkUsage
