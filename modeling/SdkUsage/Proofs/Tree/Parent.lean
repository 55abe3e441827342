/-
In a numbered module every node stands in one place. So it is a part of one
node at most, statements of the module itself are parts of none, and what is
within the body of a function is within no other body.
-/
import Mathlib.Data.List.Nodup
import Mathlib.Data.List.Pairwise
import SdkUsage.Proofs.Tree.Numbering

namespace SdkUsage.Tree

/-- Where lists that are joined have no member twice, a member comes from one of
them. -/
theorem eq_of_mem_flatMap {α β : Type} {f : α → List β} {as : List α} (h : (as.flatMap f).Nodup)
    {a b : α} {x : β} (ha : a ∈ as) (hb : b ∈ as) (hxa : x ∈ f a) (hxb : x ∈ f b) : a = b := by
  by_contra hne
  have disjoint := (List.nodup_flatMap.1 h).2
  have : Std.Symm (Function.onFun List.Disjoint f) := ⟨fun _ _ hd _ ha hb => hd hb ha⟩
  exact disjoint.forall ha hb hne hxa hxb

namespace Node

theorem mem_preorder_of_part {node whole n : Node} (hw : whole ∈ node.preorder)
    (hn : n ∈ whole.children) : n ∈ node.preorder :=
  mem_preorder_trans hw (mem_preorder_of_mem_children hn (mem_preorder_self n))

theorem mem_preorder_of_mem_parts {node whole n : Node} (hw : whole ∈ node.preorder)
    (hn : n ∈ whole.children) : ∃ child ∈ node.children, n ∈ child.preorder := by
  rcases mem_preorder_cases hw with rfl | ⟨child, hc, hw⟩
  · exact ⟨n, hn, mem_preorder_self n⟩
  · exact ⟨child, hc, mem_preorder_of_part hw hn⟩

/-- Below a node of a tree without a node twice there is none twice either. -/
theorem nodup_of_mem {node n : Node} (h : node.preorder.Nodup) (hn : n ∈ node.preorder) :
    n.preorder.Nodup := by
  rcases mem_preorder_cases hn with rfl | ⟨child, hc, hn⟩
  · exact h
  · rw [preorder_eq] at h
    exact nodup_of_mem ((List.nodup_flatMap.1 (List.nodup_cons.1 h).2).1 child hc) hn
termination_by node.rank
decreasing_by exact rank_lt_of_mem_children hc

/-- A node that stands once in a tree is not a part of anything below it. -/
theorem not_mem_children_of_nodup {node whole : Node} (h : node.preorder.Nodup)
    (hw : whole ∈ node.preorder) : node ∉ whole.children := by
  intro hn
  rw [preorder_eq, List.nodup_cons] at h
  obtain ⟨child, hc, hm⟩ := mem_preorder_of_mem_parts hw hn
  exact h.1 (List.mem_flatMap.2 ⟨child, hc, hm⟩)

/-- In a tree without a node twice, a node is a part of one node at most. -/
theorem parent_eq {root p q n : Node} (h : root.preorder.Nodup) (hp : p ∈ root.preorder)
    (hq : q ∈ root.preorder) (hpn : n ∈ p.children) (hqn : n ∈ q.children) : p = q := by
  have parts : (root.children.flatMap preorder).Nodup := by
    rw [preorder_eq] at h
    exact (List.nodup_cons.1 h).2
  -- A part of the root is not below another part of it, nor below itself.
  have top : ∀ {q : Node}, n ∈ root.children → n ∈ q.children → q ∈ root.preorder → q = root := by
    intro q hn hqn hq
    rcases mem_preorder_cases hq with rfl | ⟨c, hc, hq⟩
    · rfl
    · cases eq_of_mem_flatMap parts hn hc (mem_preorder_self n) (mem_preorder_of_part hq hqn)
      have once := (List.nodup_flatMap.1 parts).1 n hn
      exact absurd hqn (not_mem_children_of_nodup once hq)
  rcases mem_preorder_cases hp with rfl | ⟨c, hc, hp'⟩
  · exact (top hpn hqn hq).symm
  · rcases mem_preorder_cases hq with rfl | ⟨c', hc', hq'⟩
    · exact top hqn hpn hp
    · cases eq_of_mem_flatMap parts hc hc' (mem_preorder_of_part hp' hpn)
        (mem_preorder_of_part hq' hqn)
      exact parent_eq ((List.nodup_flatMap.1 parts).1 c hc) hp' hq' hpn hqn
termination_by root.rank
decreasing_by exact rank_lt_of_mem_children hc

end Node

namespace Module.Numbered

variable {module : Module}

theorem nodup (h : module.Numbered) : module.nodes.Nodup := by
  refine List.nodup_iff_sublist.2 fun n hn => ?_
  cases n with
  | expr e => exact List.nodup_iff_sublist.1 h.exprs_nodup e.index (hn.filterMap Node.exprNumber?)
  | stmt t => exact List.nodup_iff_sublist.1 h.stmts_nodup t.index (hn.filterMap Node.stmtNumber?)

theorem nodup_preorder (h : module.Numbered) {n : Node} (hn : n ∈ module.nodes) :
    n.preorder.Nodup := by
  obtain ⟨a, ha, hn⟩ := List.mem_flatMap.1 hn
  exact Node.nodup_of_mem ((List.nodup_flatMap.1 h.nodup).1 a ha) hn

/-- Statements of a numbered module with the same number are the same. -/
theorem stmt_eq (h : module.Numbered) {t t' : Stmt} (ht : .stmt t ∈ module.nodes)
    (ht' : .stmt t' ∈ module.nodes) (hi : t.index = t'.index) : t = t' := by
  have same := eq_of_number_eq h.stmts_nodup ht ht' (i := t.index) rfl (congrArg some hi.symm)
  cases same
  rfl

/-- **A node of a numbered module is a part of one node at most.** -/
theorem parent_eq (h : module.Numbered) {p q n : Node} (hp : p ∈ module.nodes)
    (hq : q ∈ module.nodes) (hpn : Node.Part n p) (hqn : Node.Part n q) : p = q := by
  rw [← Node.mem_children] at hpn hqn
  obtain ⟨a, ha, hp⟩ := List.mem_flatMap.1 hp
  obtain ⟨b, hb, hq⟩ := List.mem_flatMap.1 hq
  cases eq_of_mem_flatMap h.nodup ha hb (Node.mem_preorder_of_part hp hpn)
    (Node.mem_preorder_of_part hq hqn)
  exact Node.parent_eq ((List.nodup_flatMap.1 h.nodup).1 a ha) hp hq hpn hqn

/-- Statements of the module itself are parts of nothing. -/
theorem not_part (h : module.Numbered) {t : Stmt} {p : Node} (ht : t ∈ module.body)
    (hp : p ∈ module.nodes) : ¬ Node.Part (.stmt t) p := by
  intro hn
  rw [← Node.mem_children] at hn
  obtain ⟨a, ha, hp⟩ := List.mem_flatMap.1 hp
  have top := stmt_mem_stmtNodes.2 ht
  cases eq_of_mem_flatMap h.nodup top ha (Node.mem_preorder_self _) (Node.mem_preorder_of_part hp hn)
  exact Node.not_mem_children_of_nodup ((List.nodup_flatMap.1 h.nodup).1 _ ha) hp hn

end Module.Numbered

/-! ## Bodies -/

section Bodies

variable {module : Module} (hm : module.Numbered) {d d' : Function} {n : Node}

theorem part_of_mem_body {t : Stmt} (ht : t ∈ d.body) :
    Node.Part (.stmt t) (.stmt (.functionDef d)) :=
  Node.mem_children.1 (List.mem_append_right _ (stmt_mem_stmtNodes.2 ht))

include hm

/-- What is within the statements of a module is within no body. -/
theorem Within.not_within_body (h : Within module.body n)
    (hd : .stmt (.functionDef d) ∈ module.nodes) : ¬ Within d.body n := by
  induction h with
  | @stmt t ht =>
    intro h'
    cases h' with
    | stmt ht' => exact hm.not_part ht hd (part_of_mem_body ht')
    | part hw _ hn => exact hm.not_part ht (hw.mem_nodes_of_function hd) hn
  | @part n whole hw ho hn ih =>
    intro h'
    cases h' with
    | stmt ht' =>
      cases hm.parent_eq hw.mem_nodes hd hn (part_of_mem_body ht')
      cases ho
    | part hw' _ hn' =>
      cases hm.parent_eq hw.mem_nodes (hw'.mem_nodes_of_function hd) hn hn'
      exact ih hw'

/-- **What is within the body of a function is within no other body.** -/
theorem Within.function_eq (h : Within d.body n) (h' : Within d'.body n)
    (hd : .stmt (.functionDef d) ∈ module.nodes) (hd' : .stmt (.functionDef d') ∈ module.nodes) :
    d = d' := by
  induction h with
  | @stmt t ht =>
    cases h' with
    | stmt ht' =>
      cases hm.parent_eq hd hd' (part_of_mem_body ht) (part_of_mem_body ht')
      rfl
    | part hw' ho' hn' =>
      cases hm.parent_eq hd (hw'.mem_nodes_of_function hd') (part_of_mem_body ht) hn'
      cases ho'
  | @part n whole hw ho hn ih =>
    cases h' with
    | stmt ht' =>
      cases hm.parent_eq (hw.mem_nodes_of_function hd) hd' hn (part_of_mem_body ht')
      cases ho
    | part hw' _ hn' =>
      cases hm.parent_eq (hw.mem_nodes_of_function hd) (hw'.mem_nodes_of_function hd') hn hn'
      exact ih hw'

end Bodies

end SdkUsage.Tree
