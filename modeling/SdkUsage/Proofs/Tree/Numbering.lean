/-
The numbers of nodes. Tables attach data to a node by its number, so that
nothing they say means anything unless a number belongs to one node: this is
`Module.Numbered`, and `expr_eq` and `stmt_eq` are what it is used for.

`exprNumbers` and `stmtNumbers` list the numbers below some nodes. Where nodes
are put together the lists are too, which is all that is needed to see that a
tree is numbered as it is read.
-/
import Mathlib.Data.List.Flatten
import Mathlib.Data.List.Perm.Subperm
import SdkUsage.Proofs.Tree.Region

namespace SdkUsage.Tree

/-! ## Numbers below nodes -/

/-- The number of a node, if it is an expression. -/
def Node.exprNumber? : Node → Option Nat
  | .expr e => some e.index
  | .stmt _ => none

/-- The number of a node, if it is a statement. -/
def Node.stmtNumber? : Node → Option Nat
  | .stmt t => some t.index
  | .expr _ => none

/-- The numbers of the expressions below some nodes. -/
def exprNumbers (nodes : List Node) : List Nat :=
  (nodes.flatMap Node.preorder).filterMap Node.exprNumber?

/-- The numbers of the statements below some nodes. -/
def stmtNumbers (nodes : List Node) : List Nat :=
  (nodes.flatMap Node.preorder).filterMap Node.stmtNumber?

theorem exprNumbers_append (as bs : List Node) :
    exprNumbers (as ++ bs) = exprNumbers as ++ exprNumbers bs := by
  simp [exprNumbers]

theorem stmtNumbers_append (as bs : List Node) :
    stmtNumbers (as ++ bs) = stmtNumbers as ++ stmtNumbers bs := by
  simp [stmtNumbers]

theorem exprNumbers_expr (e : Expr) :
    exprNumbers [.expr e] = e.index :: exprNumbers (exprNodes e.children) := by
  simp [exprNumbers, Node.preorder_eq (.expr e), Node.exprNumber?, Node.children]

theorem exprNumbers_stmt (t : Stmt) : exprNumbers [.stmt t] = exprNumbers t.children := by
  simp only [exprNumbers, List.flatMap_cons, List.flatMap_nil, List.append_nil,
    Node.preorder_eq (.stmt t)]
  rfl

theorem stmtNumbers_stmt (t : Stmt) :
    stmtNumbers [.stmt t] = t.index :: stmtNumbers t.children := by
  simp [stmtNumbers, Node.preorder_eq (.stmt t), Node.stmtNumber?, Node.children]

/-- Expressions hold no statements. -/
@[simp] theorem stmtNumbers_exprNodes (es : List Expr) : stmtNumbers (exprNodes es) = [] := by
  refine List.filterMap_eq_nil_iff.2 fun n hn => ?_
  obtain ⟨m, hm, hn⟩ := List.mem_flatMap.1 hn
  obtain ⟨e, -, rfl⟩ := mem_exprNodes.1 hm
  obtain ⟨e', rfl⟩ := Node.exists_expr_of_mem_preorder hn
  rfl

@[simp] theorem stmtNumbers_expr (e : Expr) : stmtNumbers [.expr e] = [] :=
  stmtNumbers_exprNodes [e]

theorem exprNumbers_perm {as bs : List Node} (h : as.Perm bs) :
    (exprNumbers as).Perm (exprNumbers bs) :=
  (h.flatMap_right _).filterMap _

theorem exprNumbers_subperm {as bs : List Node} (h : as.Subperm bs) :
    (exprNumbers as).Subperm (exprNumbers bs) := by
  obtain ⟨cs, hp, hs⟩ := h
  exact ⟨exprNumbers cs, exprNumbers_perm hp, (hs.flatMap _).filterMap _⟩

/-! ## Numbered modules -/

/-- The modules that an import names are written as names. -/
def Node.ImportsNamed : Node → Prop
  | .stmt (.importModules _ names) => ∀ name ∈ names, name.name ≠ "*"
  | _ => True

/-- What an import names is no star, unless it is all of a module, which has no name then. -/
structure Alias.Starless (a : Alias) : Prop where
  unnamed : a.name = "*" → a.asName = none
  named : a.name ≠ "*" → a.boundName ≠ "*"

/-- The names that stand at a node are no stars. -/
def Node.Starless : Node → Prop
  | .expr (.name _ id) => id ≠ "*"
  | .expr (.lambda _ params _) => ∀ param ∈ params.all, param.name.text ≠ "*"
  | .stmt (.functionDef d) => d.name.text ≠ "*" ∧ ∀ param ∈ d.params.all, param.name.text ≠ "*"
  | .stmt (.classDef d) => d.name.text ≠ "*"
  | .stmt (.tryBlock _ _ handlers _ _) =>
    ∀ handler ∈ handlers, ∀ name ∈ handler.name, name.text ≠ "*"
  | .stmt (.globals _ names) | .stmt (.nonlocals _ names) => ∀ name ∈ names, name.text ≠ "*"
  | .stmt (.importModules _ names) => ∀ name ∈ names, name.name ≠ "*" ∧ name.Starless
  | .stmt (.importFrom _ _ _ names) => ∀ name ∈ names, name.Starless
  | _ => True

theorem Node.Starless.importsNamed {n : Node} (h : n.Starless) : n.ImportsNamed := by
  unfold Node.ImportsNamed
  split
  · exact fun name hn => (h name hn).1
  · trivial

/-- The numbers of a module tell its nodes apart and are below its counts, and
its imports name modules. -/
structure Module.Numbered (module : Module) : Prop where
  exprs : (exprNumbers (stmtNodes module.body)).Subperm (List.range module.expressions)
  stmts : (stmtNumbers (stmtNodes module.body)).Subperm (List.range module.statements)
  imports : ∀ n ∈ module.nodes, n.ImportsNamed

theorem nodup_of_subperm {α : Type} {as bs : List α} (h : as.Subperm bs) (hb : bs.Nodup) :
    as.Nodup := by
  obtain ⟨cs, hp, hs⟩ := h
  exact hp.nodup_iff.1 (hs.nodup hb)

/-- Where the numbers of a list are distinct, a number belongs to one member. -/
theorem eq_of_number_eq {α : Type} {f : α → Option Nat} {as : List α} (h : (as.filterMap f).Nodup)
    {a b : α} {i : Nat} (ha : a ∈ as) (hb : b ∈ as) (hai : f a = some i) (hbi : f b = some i) :
    a = b := by
  induction as with
  | nil => cases ha
  | cons c as ih =>
    cases hc : f c with
    | none =>
      rw [List.filterMap_cons_none hc] at h
      have ha' : a ∈ as := by
        rcases List.mem_cons.1 ha with rfl | ha
        · rw [hai] at hc; cases hc
        · exact ha
      have hb' : b ∈ as := by
        rcases List.mem_cons.1 hb with rfl | hb
        · rw [hbi] at hc; cases hc
        · exact hb
      exact ih h ha' hb'
    | some j =>
      rw [List.filterMap_cons_some hc, List.nodup_cons] at h
      -- The number of the head is not among those behind it.
      have head : ∀ {x}, x ∈ as → f x ≠ some j := fun hx hj =>
        h.1 (List.mem_filterMap.2 ⟨_, hx, hj⟩)
      rcases List.mem_cons.1 ha with rfl | ha' <;> rcases List.mem_cons.1 hb with rfl | hb'
      · rfl
      · exact absurd (hbi.trans (hai.symm.trans hc)) (head hb')
      · exact absurd (hai.trans (hbi.symm.trans hc)) (head ha')
      · exact ih h.2 ha' hb'

namespace Module.Numbered

variable {module : Module}

theorem exprs_nodup (h : module.Numbered) : (module.nodes.filterMap Node.exprNumber?).Nodup :=
  nodup_of_subperm h.exprs List.nodup_range

theorem stmts_nodup (h : module.Numbered) : (module.nodes.filterMap Node.stmtNumber?).Nodup :=
  nodup_of_subperm h.stmts List.nodup_range

theorem expr_lt (h : module.Numbered) {e : Expr} (he : .expr e ∈ module.nodes) :
    e.index < module.expressions :=
  List.mem_range.1 (h.exprs.subset (List.mem_filterMap.2 ⟨_, he, rfl⟩))

theorem stmt_lt (h : module.Numbered) {t : Stmt} (ht : .stmt t ∈ module.nodes) :
    t.index < module.statements :=
  List.mem_range.1 (h.stmts.subset (List.mem_filterMap.2 ⟨_, ht, rfl⟩))

/-- Expressions of a numbered module with the same number are the same. -/
theorem expr_eq (h : module.Numbered) {e e' : Expr} (he : .expr e ∈ module.nodes)
    (he' : .expr e' ∈ module.nodes) (hi : e.index = e'.index) : e = e' := by
  have := eq_of_number_eq h.exprs_nodup he he' (i := e.index) rfl (congrArg some hi.symm)
  cases this
  rfl

/-- **A number stands inside a function or outside of all, never both.** -/
theorem expr_ne_of_hidden (h : module.Numbered) {e e' : Expr} {d : Function}
    (he : Within module.body (.expr e)) (hd : .stmt (.functionDef d) ∈ module.nodes)
    (he' : Within d.body (.expr e')) : e.index ≠ e'.index := by
  -- The numbers of the module, sorted by region.
  have split : (exprNumbers (stmtNodes module.body)).Perm
      (((stmtNodes module.body).flatMap Node.own).filterMap Node.exprNumber? ++
        ((stmtNodes module.body).flatMap Node.hidden).filterMap Node.exprNumber?) := by
    rw [← List.filterMap_append]
    refine List.Perm.filterMap _ ?_
    exact (List.Perm.flatMap_left _ fun n _ => Node.preorder_perm n).trans
      (List.flatMap_append_perm _ _ _).symm
  have nodup := split.nodup_iff.1 (nodup_of_subperm h.exprs List.nodup_range)
  have disjoint := (List.nodup_append.1 nodup).2.2
  obtain ⟨t, ht, hn⟩ := List.mem_flatMap.1 he'.mem_preorder
  obtain ⟨u, hu, hd⟩ := List.mem_flatMap.1 hd
  have hc : t ∈ (Node.stmt (.functionDef d)).children := List.mem_append_right _ ht
  have hidden : .expr e' ∈ u.hidden := Node.mem_hidden_of_opensScope hd rfl hc hn
  refine disjoint _ (List.mem_filterMap.2 ⟨_, he.mem_own, rfl⟩) _ ?_
  exact List.mem_filterMap.2 ⟨_, List.mem_flatMap.2 ⟨u, hu, hidden⟩, rfl⟩

end Module.Numbered

end SdkUsage.Tree
