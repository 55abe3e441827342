/-
Which part of a tree belongs to which scope. The nodes below a node fall into
its own region, which stops at functions, classes and lambdas, and what is
hidden inside those; `Node.preorder_perm` says that the two make up the tree.

`Within` says the same of a list of statements without listing anything: a
node is within the statements when a path of places leads to it that enters no
definition.
-/
import Mathlib.Data.List.Perm.Basic
import SdkUsage.Proofs.Tree.Part

namespace SdkUsage.Tree

variable {node : Node} {stmts : List Stmt} {module : Module}

/-- Functions, classes and lambdas have a scope of their own. -/
def Node.opensScope : Node → Bool
  | .expr (.lambda ..) | .stmt (.functionDef _) | .stmt (.classDef _) => true
  | _ => false

/-- What stands in statements, outside of the functions, classes and lambdas
in them. -/
inductive Within (stmts : List Stmt) : Node → Prop
  | stmt {t} : t ∈ stmts → Within stmts (.stmt t)
  | part {n whole} : Within stmts whole → whole.opensScope = false → Node.Part n whole →
    Within stmts n

namespace Node

/-! ## Everything below a node -/

theorem mem_preorder_self (node : Node) : node ∈ node.preorder := by
  rw [preorder_eq]
  exact List.mem_cons_self

theorem mem_preorder_of_mem_children {child n : Node} (hc : child ∈ node.children)
    (hn : n ∈ child.preorder) : n ∈ node.preorder := by
  rw [preorder_eq]
  exact List.mem_cons_of_mem _ (List.mem_flatMap.2 ⟨child, hc, hn⟩)

theorem mem_preorder_cases {n : Node} (h : n ∈ node.preorder) :
    n = node ∨ ∃ child ∈ node.children, n ∈ child.preorder := by
  rw [preorder_eq, List.mem_cons, List.mem_flatMap] at h
  exact h

theorem mem_preorder_trans {a b c : Node} (hab : b ∈ a.preorder) (hbc : c ∈ b.preorder) :
    c ∈ a.preorder := by
  rcases mem_preorder_cases hab with rfl | ⟨child, hc, hb⟩
  · exact hbc
  · exact mem_preorder_of_mem_children hc (mem_preorder_trans hb hbc)
termination_by a.rank
decreasing_by exact rank_lt_of_mem_children hc

/-- Below an expression there are only expressions. -/
theorem exists_expr_of_mem_preorder {e : Expr} {n : Node} (h : n ∈ (Node.expr e).preorder) :
    ∃ e', n = .expr e' := by
  rcases mem_preorder_cases h with rfl | ⟨child, hc, hn⟩
  · exact ⟨e, rfl⟩
  · obtain ⟨c, hc', rfl⟩ := mem_exprNodes.1 hc
    exact exists_expr_of_mem_preorder hn
termination_by sizeOf e
decreasing_by exact Expr.sizeOf_lt_of_mem_children hc'

/-! ## The own region -/

/-- A node and what stands in it outside of definitions. -/
def own (node : Node) : List Node :=
  node :: if node.opensScope then [] else node.children.attach.flatMap fun child => own child.1
termination_by node.rank
decreasing_by exact rank_lt_of_mem_children child.2

/-- What stands inside the definitions in a node. -/
def hidden (node : Node) : List Node :=
  if node.opensScope then node.children.flatMap preorder
  else node.children.attach.flatMap fun child => hidden child.1
termination_by node.rank
decreasing_by exact rank_lt_of_mem_children child.2

theorem own_of_opensScope (h : node.opensScope = true) : node.own = [node] := by
  rw [own, if_pos h]

theorem hidden_of_opensScope (h : node.opensScope = true) :
    node.hidden = node.children.flatMap preorder := by
  rw [hidden, if_pos h]

theorem own_of_not_opensScope (h : node.opensScope = false) :
    node.own = node :: node.children.flatMap own := by
  rw [own, if_neg (by simp [h]), List.flatMap_subtype (g := own) fun _ _ => rfl,
    List.unattach_attach]

theorem hidden_of_not_opensScope (h : node.opensScope = false) :
    node.hidden = node.children.flatMap hidden := by
  rw [hidden, if_neg (by simp [h]), List.flatMap_subtype (g := hidden) fun _ _ => rfl,
    List.unattach_attach]

/-- Every node below a node is in its own region or hidden, once. -/
theorem preorder_perm (node : Node) : node.preorder.Perm (node.own ++ node.hidden) := by
  cases h : node.opensScope with
  | true =>
    rw [own_of_opensScope h, hidden_of_opensScope h, preorder_eq]
    exact List.Perm.refl _
  | false =>
    have ih : ∀ child ∈ node.children, child.preorder.Perm (child.own ++ child.hidden) :=
      fun child _ => preorder_perm child
    rw [own_of_not_opensScope h, hidden_of_not_opensScope h, preorder_eq, List.cons_append]
    refine List.Perm.cons _ ?_
    exact (List.Perm.flatMap_left _ ih).trans (List.flatMap_append_perm _ _ _).symm
termination_by node.rank
decreasing_by exact rank_lt_of_mem_children (by assumption)

theorem mem_own_self (node : Node) : node ∈ node.own := by
  rw [own]
  exact List.mem_cons_self

theorem mem_preorder_of_mem_own {n : Node} (h : n ∈ node.own) : n ∈ node.preorder :=
  (preorder_perm node).mem_iff.2 (List.mem_append_left _ h)

/-- What stands in a place of a node of the own region is in it as well, unless
the node is a definition. -/
theorem mem_own_of_mem_children {node whole n : Node} (hw : whole ∈ node.own)
    (ho : whole.opensScope = false) (hn : n ∈ whole.children) : n ∈ node.own := by
  cases h : node.opensScope with
  | true =>
    rw [own_of_opensScope h, List.mem_singleton] at hw
    rw [hw, h] at ho
    cases ho
  | false =>
    rw [own_of_not_opensScope h, List.mem_cons, List.mem_flatMap] at hw
    rw [own_of_not_opensScope h, List.mem_cons, List.mem_flatMap]
    rcases hw with rfl | ⟨child, hc, hw⟩
    · exact .inr ⟨n, hn, mem_own_self n⟩
    · exact .inr ⟨child, hc, mem_own_of_mem_children hw ho hn⟩
termination_by node.rank
decreasing_by exact rank_lt_of_mem_children hc

/-- What stands in a definition is hidden, whether the definition itself is or
not. -/
theorem mem_hidden_of_opensScope {node whole child n : Node} (hw : whole ∈ node.preorder)
    (ho : whole.opensScope = true) (hc : child ∈ whole.children) (hn : n ∈ child.preorder) :
    n ∈ node.hidden := by
  cases h : node.opensScope with
  | true =>
    rw [hidden_of_opensScope h, List.mem_flatMap]
    rcases mem_preorder_cases hw with rfl | ⟨c, hc', hw⟩
    · exact ⟨child, hc, hn⟩
    · exact ⟨c, hc', mem_preorder_trans hw (mem_preorder_of_mem_children hc hn)⟩
  | false =>
    rw [hidden_of_not_opensScope h, List.mem_flatMap]
    rcases mem_preorder_cases hw with rfl | ⟨c, hc', hw⟩
    · rw [h] at ho
      cases ho
    · exact ⟨c, hc', mem_hidden_of_opensScope hw ho hc hn⟩
termination_by node.rank
decreasing_by exact rank_lt_of_mem_children hc'

end Node

/-! ## Statements -/

theorem Within.mem_own {n : Node} (h : Within stmts n) :
    n ∈ (stmtNodes stmts).flatMap Node.own := by
  induction h with
  | stmt ht => exact List.mem_flatMap.2 ⟨_, stmt_mem_stmtNodes.2 ht, Node.mem_own_self _⟩
  | part _ ho hn ih =>
    obtain ⟨t, ht, hw⟩ := List.mem_flatMap.1 ih
    exact List.mem_flatMap.2
      ⟨t, ht, Node.mem_own_of_mem_children hw ho (Node.mem_children.2 hn)⟩

theorem Within.of_mem_own {stmts : List Stmt} {node n : Node} (hw : Within stmts node)
    (h : n ∈ node.own) : Within stmts n := by
  cases ho : node.opensScope with
  | true =>
    rw [Node.own_of_opensScope ho, List.mem_singleton] at h
    exact h ▸ hw
  | false =>
    rw [Node.own_of_not_opensScope ho, List.mem_cons, List.mem_flatMap] at h
    rcases h with rfl | ⟨child, hc, hn⟩
    · exact hw
    · exact (hw.part ho (Node.mem_children.1 hc)).of_mem_own hn
termination_by node.rank
decreasing_by exact Node.rank_lt_of_mem_children hc

/-- The nodes that belong to statements can be listed. -/
theorem within_iff {n : Node} : Within stmts n ↔ n ∈ (stmtNodes stmts).flatMap Node.own := by
  refine ⟨Within.mem_own, fun h => ?_⟩
  obtain ⟨_, hmem, hn⟩ := List.mem_flatMap.1 h
  obtain ⟨t, ht, rfl⟩ := mem_stmtNodes.1 hmem
  exact (Within.stmt ht).of_mem_own hn

theorem Within.mem_preorder {n : Node} (h : Within stmts n) :
    n ∈ (stmtNodes stmts).flatMap Node.preorder := by
  obtain ⟨t, ht, hn⟩ := List.mem_flatMap.1 h.mem_own
  exact List.mem_flatMap.2 ⟨t, ht, Node.mem_preorder_of_mem_own hn⟩

theorem Within.mem_nodes {n : Node} (h : Within module.body n) : n ∈ module.nodes := h.mem_preorder

theorem Within.mono {stmts' : List Stmt} {n : Node} (h : Within stmts n)
    (hs : ∀ t ∈ stmts, t ∈ stmts') : Within stmts' n := by
  induction h with
  | stmt ht => exact .stmt (hs _ ht)
  | part _ ho hn ih => exact .part ih ho hn

/-- Nodes below nodes of a module belong to the module. -/
theorem Module.mem_nodes_of_mem_preorder {whole n : Node} (hw : whole ∈ module.nodes)
    (hn : n ∈ whole.preorder) : n ∈ module.nodes := by
  obtain ⟨t, ht, hw⟩ := List.mem_flatMap.1 hw
  exact List.mem_flatMap.2 ⟨t, ht, Node.mem_preorder_trans hw hn⟩

/-- What is within the body of a function of a module is a node of it. -/
theorem Within.mem_nodes_of_function {d : Function} {n : Node}
    (hd : .stmt (.functionDef d) ∈ module.nodes) (h : Within d.body n) : n ∈ module.nodes := by
  obtain ⟨t, ht, hn⟩ := List.mem_flatMap.1 h.mem_preorder
  have hc : t ∈ (Node.stmt (.functionDef d)).children := List.mem_append_right _ ht
  exact Module.mem_nodes_of_mem_preorder hd (Node.mem_preorder_of_mem_children hc hn)

end SdkUsage.Tree
