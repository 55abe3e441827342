/-
What a call map holds: exactly the invocations among the types of the nodes of
a module. `Module.Has` says which nodes these are without a walk: the statements
of the module, and whatever stands in a place of a node.
-/
import SdkUsage.CallMap
import SdkUsage.Proofs.Tree.Region

namespace SdkUsage

open SdkUsage.Tree

namespace Tree.Module

variable {module : Module} {n : Node}

/-- What stands anywhere in a module. -/
inductive Has (module : Module) : Node → Prop
  | stmt {t} : t ∈ module.body → Has module (.stmt t)
  | part {n whole} : Has module whole → Node.Part n whole → Has module n

theorem Has.of_mem_preorder {whole : Node} (hw : module.Has whole) (hn : n ∈ whole.preorder) :
    module.Has n := by
  rcases Node.mem_preorder_cases hn with rfl | ⟨child, hc, hn⟩
  · exact hw
  · exact (hw.part (Node.mem_children.1 hc)).of_mem_preorder hn
termination_by whole.rank
decreasing_by exact Node.rank_lt_of_mem_children hc

theorem Has.mem_nodes (h : module.Has n) : n ∈ module.nodes := by
  induction h with
  | stmt ht => exact List.mem_flatMap.2 ⟨_, stmt_mem_stmtNodes.2 ht, Node.mem_preorder_self _⟩
  | part _ hp ih =>
    refine Module.mem_nodes_of_mem_preorder ih ?_
    exact Node.mem_preorder_of_mem_children (Node.mem_children.2 hp) (Node.mem_preorder_self _)

/-- **The nodes of a module can be listed.** -/
theorem has_iff : module.Has n ↔ n ∈ module.nodes := by
  refine ⟨Has.mem_nodes, fun h => ?_⟩
  obtain ⟨_, hm, hn⟩ := List.mem_flatMap.1 h
  obtain ⟨t, ht, rfl⟩ := mem_stmtNodes.1 hm
  exact (Has.stmt ht).of_mem_preorder hn

end Tree.Module

theorem SortedMap.mem_keys {κ α : Type} [Key κ] {map : SortedMap κ α} {key : κ} :
    key ∈ map.keys ↔ ∃ value, map.get? key = some value := by
  simp only [keys, List.mem_map]
  constructor
  · rintro ⟨⟨k, v⟩, hmem, rfl⟩
    exact ⟨v, mem_entries_iff.1 hmem⟩
  · rintro ⟨v, hv⟩
    exact ⟨(key, v), mem_entries_iff.2 hv, rfl⟩

namespace CallMap

variable {calls : CallMap} {service method : String}

theorem mem_methods_empty : ¬method ∈ methods ∅ service := by
  simp [methods, SortedMap.mem_keys]

theorem mem_methods_add {service' method' : String} :
    method ∈ (calls.add service' method').methods service ↔
      (service = service' ∧ method = method') ∨ method ∈ calls.methods service := by
  unfold methods add
  rw [SortedMap.get?_insert]
  by_cases h : service = service'
  · subst h
    rw [if_pos rfl, Option.getD_some, SortedMap.mem_keys, SortedMap.mem_keys]
    simp only [SortedMap.get?_insert, true_and]
    by_cases hm : method = method'
    · simp [hm]
    · simp [hm]
  · rw [if_neg h]
    simp [h]

theorem mem_methods_addNode {types : Annotations} {node : Node} :
    method ∈ (calls.addNode types node).methods service ↔
      types.ofNode? node = some (.invocation service method) ∨ method ∈ calls.methods service := by
  unfold addNode
  -- Only an invocation adds anything.
  have inv : ∀ t : Ty, t.invocation? = some (service, method) ↔ t = .invocation service method := by
    intro t
    cases t <;> simp [Ty.invocation?]
  split
  · next s m h =>
    obtain ⟨t, ht, hi⟩ := Option.bind_eq_some_iff.1 h
    rw [mem_methods_add, ht, Option.some_inj, ← inv, hi]
    simp [eq_comm]
  · next h =>
    constructor
    · exact .inr
    · rintro (ht | hm)
      · rw [ht] at h
        cases h
      · exact hm

/-- **The methods reported for a service are those that nodes of the module
invoke**, by the types the nodes have. -/
theorem mem_methods_collect {types : Annotations} {module : Module} :
    method ∈ (collect types module).methods service ↔
      ∃ node ∈ module.nodes, types.ofNode? node = some (.invocation service method) := by
  -- By induction on the nodes, for any map to begin with.
  have fold : ∀ (nodes : List Node) (calls : CallMap),
      method ∈ (nodes.foldl (addNode types) calls).methods service ↔
        (∃ node ∈ nodes, types.ofNode? node = some (.invocation service method)) ∨
          method ∈ calls.methods service := by
    intro nodes
    induction nodes with
    | nil => simp
    | cons node nodes ih =>
      intro calls
      rw [List.foldl_cons, ih, mem_methods_addNode]
      simp only [List.mem_cons, exists_eq_or_imp]
      exact or_left_comm.trans or_assoc.symm
  rw [collect, fold]
  simp [mem_methods_empty]

/-- No service is without methods. -/
def Full (calls : CallMap) : Prop := ∀ service, calls.get? service ≠ some ∅

theorem full_empty : Full ∅ := by
  intro service h
  cases h

theorem Full.add (h : calls.Full) (service method : String) : (calls.add service method).Full := by
  intro other hm
  rw [CallMap.add, SortedMap.get?_insert] at hm
  split at hm
  · have has := SortedMap.get?_insert_self ((calls.get? service).getD ∅) method ()
    rw [Option.some.inj hm] at has
    cases has
  · exact h other hm

theorem Full.addNode (h : calls.Full) (types : Annotations) (node : Node) :
    (calls.addNode types node).Full := by
  unfold CallMap.addNode
  split
  · exact h.add _ _
  · exact h

theorem full_collect (types : Annotations) (module : Module) : (collect types module).Full :=
  List.foldlRecOn _ _ full_empty fun _ h node _ => h.addNode types node

/-- **A call map holds exactly the invocations of a module.** With types of any kind and in tables
of any size, a method is listed for a service if and only if something that stands in the module
has the type of such an invocation; and no service is listed without a method. -/
theorem holds_invocations (types : Annotations) (module : Module) (service : String) :
    (∀ method, method ∈ (collect types module).methods service ↔
      ∃ node, module.Has node ∧ types.ofNode? node = some (.invocation service method)) ∧
    (collect types module).get? service ≠ some ∅ := by
  refine ⟨fun method => ?_, full_collect types module service⟩
  simp only [mem_methods_collect, Module.has_iff]

end CallMap

end SdkUsage
