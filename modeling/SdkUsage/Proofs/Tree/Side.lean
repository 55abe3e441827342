/-
The two sides of a program, given the names of some of its functions. On one side
stand the bodies of functions with these names, with all that is inside them; on
the other stands the rest. Every node that may be analyzed has one side.

Classes and lambdas are on no side, since they are not analyzed.
-/
import SdkUsage.Proofs.Tree.Parent

namespace SdkUsage.Tree

variable {names : List String} {module : Module} {b b' : Bool} {n : Node} {d : Function}

/-- The nodes of a module, each with its side: `true` inside the functions with one
of the names. -/
inductive Code (names : List String) (module : Module) : Bool → Node → Prop
  | stmt {t} : t ∈ module.body → Code names module false (.stmt t)
  | part {b n whole} : Code names module b whole → whole.opensScope = false →
    Node.Part n whole → Code names module b n
  | body {b d t} : Code names module b (.stmt (.functionDef d)) → t ∈ d.body →
    Code names module (b || decide (d.name.text ∈ names)) (.stmt t)

/-- A function has its body on a side. -/
def Side (names : List String) (module : Module) (b : Bool) (d : Function) : Prop :=
  ∃ outer, Code names module outer (.stmt (.functionDef d)) ∧
    b = (outer || decide (d.name.text ∈ names))

/-- A statement is of the program's own, that is, on the side without the names, and
does not define a function with one of them. -/
def OwnStmt (names : List String) (module : Module) (t : Stmt) : Prop :=
  Code names module false (.stmt t) ∧ ∀ d, t = .functionDef d → d.name.text ∉ names

theorem Code.mem_nodes (h : Code names module b n) : n ∈ module.nodes := by
  induction h with
  | stmt ht => exact (Within.stmt ht).mem_nodes
  | part _ _ hn ih => exact Module.mem_nodes_of_mem_preorder ih (Node.mem_preorder_of_part
      (Node.mem_preorder_self _) (Node.mem_children.2 hn))
  | body _ ht ih => exact (Within.stmt ht).mem_nodes_of_function ih

theorem Code.of_within (h : Within module.body n) : Code names module false n := by
  induction h with
  | stmt ht => exact .stmt ht
  | part _ ho hn ih => exact .part ih ho hn

theorem Code.side (h : Code names module b (.stmt (.functionDef d))) :
    Side names module (b || decide (d.name.text ∈ names)) d := ⟨b, h, rfl⟩

namespace Side

theorem mem_nodes (h : Side names module b d) : .stmt (.functionDef d) ∈ module.nodes := by
  obtain ⟨_, hd, -⟩ := h
  exact hd.mem_nodes

/-- What is within the body of a function is on the side of the body. -/
theorem code (h : Side names module b d) (hn : Within d.body n) : Code names module b n := by
  obtain ⟨outer, hd, rfl⟩ := h
  induction hn with
  | stmt ht => exact .body hd ht
  | part _ ho hn ih => exact .part ih ho hn

theorem ownStmt (h : Side names module false d) : OwnStmt names module (.functionDef d) := by
  obtain ⟨outer, hd, ho⟩ := h
  obtain ⟨rfl, hn⟩ := Bool.or_eq_false_iff.1 ho.symm
  refine ⟨hd, fun d' h => ?_⟩
  cases h
  exact of_decide_eq_false hn

end Side

theorem OwnStmt.side (h : OwnStmt names module (.functionDef d)) : Side names module false d := by
  have side := h.1.side
  rwa [decide_eq_false (h.2 d rfl)] at side

/-- A node stands within the module, or within a function whose body is on the
same side. -/
theorem Code.region (h : Code names module b n) :
    (b = false ∧ Within module.body n) ∨ ∃ d, Side names module b d ∧ Within d.body n := by
  induction h with
  | stmt ht => exact .inl ⟨rfl, .stmt ht⟩
  | part _ ho hn ih =>
    rcases ih with ⟨hb, hw⟩ | ⟨d, hd, hw⟩
    · exact .inl ⟨hb, .part hw ho hn⟩
    · exact .inr ⟨d, hd, .part hw ho hn⟩
  | @body b d t hd ht => exact .inr ⟨d, hd.side, .stmt ht⟩

/-! ## Listing the sides -/

/-- What is analyzed inside a node, with its side, given that of the node. -/
def Node.next (names : List String) (b : Bool) : Node → List (Bool × Node)
  | .stmt (.functionDef d) =>
    d.body.map fun t => (b || decide (d.name.text ∈ names), .stmt t)
  | node => if node.opensScope then [] else node.children.map (b, ·)

theorem Node.next_of_not_opensScope {node : Node} (h : node.opensScope = false) :
    node.next names b = node.children.map (b, ·) := by
  unfold next
  split
  · cases h
  · exact if_neg (Bool.eq_false_iff.1 h)

theorem Node.mem_children_of_mem_next {node : Node} {x : Bool × Node}
    (h : x ∈ node.next names b) : x.2 ∈ node.children := by
  unfold next at h
  split at h
  · obtain ⟨t, ht, rfl⟩ := List.mem_map.1 h
    exact List.mem_append_right _ (stmt_mem_stmtNodes.2 ht)
  · split at h
    · cases h
    · obtain ⟨child, hc, rfl⟩ := List.mem_map.1 h
      exact hc

/-- A node and all that may be analyzed inside it, each with its side. -/
def Node.sides (names : List String) (b : Bool) (node : Node) : List (Bool × Node) :=
  (b, node) :: (node.next names b).attach.flatMap fun x => sides names x.1.1 x.1.2
termination_by node.rank
decreasing_by exact rank_lt_of_mem_children (mem_children_of_mem_next x.2)

theorem Node.sides_eq (node : Node) :
    node.sides names b =
      (b, node) :: (node.next names b).flatMap fun x => x.2.sides names x.1 := by
  rw [sides, List.flatMap_subtype (g := fun x => x.2.sides names x.1) fun _ _ => rfl,
    List.unattach_attach]

theorem Node.mem_sides_of_mem_next {b : Bool} {node : Node} {x y : Bool × Node} (hx : x ∈ node.sides names b)
    (hy : y ∈ x.2.next names x.1) : y ∈ node.sides names b := by
  rw [sides_eq, List.mem_cons, List.mem_flatMap] at hx ⊢
  rcases hx with rfl | ⟨z, hz, hx⟩
  · refine .inr ⟨y, hy, ?_⟩
    rw [sides_eq]
    exact List.mem_cons_self
  · exact .inr ⟨z, hz, mem_sides_of_mem_next hx hy⟩
termination_by node.rank
decreasing_by exact rank_lt_of_mem_children (mem_children_of_mem_next hz)

/-- The nodes of a module that may be analyzed, each with its side. -/
def Module.sides (names : List String) (module : Module) : List (Bool × Node) :=
  (stmtNodes module.body).flatMap (Node.sides names false)

theorem Code.mem_sides (h : Code names module b n) : (b, n) ∈ module.sides names := by
  have next : ∀ {x y : Bool × Node}, x ∈ module.sides names → y ∈ x.2.next names x.1 →
      y ∈ module.sides names := by
    intro x y hx hy
    obtain ⟨t, ht, hx⟩ := List.mem_flatMap.1 hx
    exact List.mem_flatMap.2 ⟨t, ht, Node.mem_sides_of_mem_next hx hy⟩
  induction h with
  | stmt ht =>
    refine List.mem_flatMap.2 ⟨_, stmt_mem_stmtNodes.2 ht, ?_⟩
    rw [Node.sides_eq]
    exact List.mem_cons_self
  | @part b n whole _ ho hn ih =>
    refine next ih ?_
    rw [Node.next_of_not_opensScope ho]
    exact List.mem_map.2 ⟨n, Node.mem_children.2 hn, rfl⟩
  | body _ ht ih => exact next ih (List.mem_map.2 ⟨_, ht, rfl⟩)

section Unique

variable (hm : module.Numbered)

include hm

/-- **Every node has one side.** -/
theorem Code.unique (h : Code names module b n) (h' : Code names module b' n) : b = b' := by
  induction h generalizing b' with
  | @stmt t ht =>
    cases h' with
    | stmt => rfl
    | part hw _ hn => exact absurd hn (hm.not_part ht hw.mem_nodes)
    | body hd ht' => exact absurd (part_of_mem_body ht') (hm.not_part ht hd.mem_nodes)
  | @part b n whole hw ho hn ih =>
    cases h' with
    | stmt ht => exact absurd hn (hm.not_part ht hw.mem_nodes)
    | part hw' _ hn' =>
      cases hm.parent_eq hw.mem_nodes hw'.mem_nodes hn hn'
      exact ih hw'
    | body hd ht' =>
      cases hm.parent_eq hw.mem_nodes hd.mem_nodes hn (part_of_mem_body ht')
      cases ho
  | @body b d t hd ht ih =>
    cases h' with
    | stmt ht' => exact absurd (part_of_mem_body ht) (hm.not_part ht' hd.mem_nodes)
    | part hw ho hn =>
      cases hm.parent_eq hd.mem_nodes hw.mem_nodes (part_of_mem_body ht) hn
      cases ho
    | body hd' ht' =>
      cases hm.parent_eq hd.mem_nodes hd'.mem_nodes (part_of_mem_body ht) (part_of_mem_body ht')
      rw [ih hd']

theorem Side.unique (h : Side names module b d) (h' : Side names module b' d) : b = b' := by
  obtain ⟨outer, hd, rfl⟩ := h
  obtain ⟨outer', hd', rfl⟩ := h'
  rw [hd.unique hm hd']

/-- Expressions of different sides have different numbers. -/
theorem Code.index_ne {e e' : Expr} (h : Code names module false (.expr e))
    (h' : Code names module true (.expr e')) : e.index ≠ e'.index := by
  intro hi
  cases hm.expr_eq h.mem_nodes h'.mem_nodes hi
  cases h.unique hm h'

/-- Statements of the program's own have other numbers than those inside the
functions with the names, and than these functions. -/
theorem OwnStmt.index_ne {t t' : Stmt} (h : OwnStmt names module t)
    (h' : Code names module true (.stmt t')) : t.index ≠ t'.index := by
  intro hi
  cases hm.stmt_eq h.1.mem_nodes h'.mem_nodes hi
  cases h.1.unique hm h'

theorem OwnStmt.function_ne {t : Stmt} (h : OwnStmt names module t)
    (hd : Side names module true d) : t.index ≠ d.site.index := by
  intro hi
  cases hm.stmt_eq h.1.mem_nodes hd.mem_nodes hi
  cases h.side.unique hm hd

end Unique

end SdkUsage.Tree
