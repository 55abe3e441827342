/-
Numbers and walks. A walk over the tree is how tables are filled and read, so
what matters is that no two nodes it comes to have the same number, and that
every number has a place in a table of the size the module says.

`visited` is the walk that looks at everything. It comes to the nodes of the
preorder, each once, and what is known about their numbers is known about it.
-/
import SdkUsage.Proofs.EntryPoint
import SdkUsage.Proofs.Grammar.Statement

namespace SdkUsage

open SdkUsage.Tree

namespace Tree

/-- A visitor that remembers every node and passes over none. -/
def remember (node : Node) : StateM (List Node) Bool := do
  modify (· ++ [node])
  return true

/-- The nodes that a walk over statements comes to, in order. -/
def visited (stmts : List Stmt) : List Node := ((walkStmts remember stmts).run []).2

/-- What is remembered one after another is remembered in order. -/
theorem forEach_remembers {α : Type} {l : List α}
    {f : (x : α) → x ∈ l → StateM (List Node) Unit} {nodes : α → List Node}
    (h : ∀ x hx seen, (f x hx).run seen = ((), seen ++ nodes x)) (seen : List Node) :
    (forEach l f).run seen = ((), seen ++ l.flatMap nodes) := by
  induction l generalizing seen with
  | nil => simp only [List.flatMap_nil, List.append_nil]; rfl
  | cons x l ih =>
    have rest := ih (f := fun y hy => f y (List.mem_cons_of_mem x hy)) fun y hy => h y _
    simp only [forEach, StateT.run_bind, h, rest, List.flatMap_cons, ← List.append_assoc]
    rfl

/-- **A walk comes to the nodes of the preorder.** -/
theorem walk_remembers (node : Node) (seen : List Node) :
    (node.walk remember).run seen = ((), seen ++ node.preorder) := by
  have parts := forEach_remembers (l := node.children)
    (f := fun child _ => child.walk remember) fun child _ => walk_remembers child
  rw [Node.walk, Node.preorder_eq, List.append_cons]
  exact parts (seen ++ [node])
termination_by node.rank
decreasing_by exact Node.rank_lt_of_mem_children (by assumption)

theorem visited_eq (stmts : List Stmt) :
    visited stmts = (stmtNodes stmts).flatMap Node.preorder := by
  have walked := forEach_remembers (l := stmtNodes stmts)
    (f := fun node _ => node.walk remember) fun node _ => walk_remembers node
  rw [visited, walkStmts, walked, List.nil_append]

/-- A walk over a module comes to no number twice, and to none that its counts do
not have. -/
structure Module.Distinguishes (module : Module) : Prop where
  exprs : ((visited module.body).filterMap Node.exprNumber?).Nodup
  exprs_lt : ∀ i ∈ (visited module.body).filterMap Node.exprNumber?, i < module.expressions
  stmts : ((visited module.body).filterMap Node.stmtNumber?).Nodup
  stmts_lt : ∀ i ∈ (visited module.body).filterMap Node.stmtNumber?, i < module.statements

theorem Module.Numbered.distinguishes {module : Module} (h : module.Numbered) :
    module.Distinguishes := by
  have exprs := h.exprs_nodup
  have stmts := h.stmts_nodup
  refine ⟨?_, fun i hi => ?_, ?_, fun i hi => ?_⟩
  · rwa [visited_eq]
  · rw [visited_eq] at hi
    exact List.mem_range.1 (h.exprs.subset hi)
  · rwa [visited_eq]
  · rw [visited_eq] at hi
    exact List.mem_range.1 (h.stmts.subset hi)

end Tree

/-- **Numbers identify nodes.** A walk over a module that was parsed comes to no
number of an expression twice and to none beyond their count, and it comes to
every number of a statement below their count, once. With calls of its entry
points, whatever marks them, the module still has every number once and none
beyond its new counts. -/
theorem numbers_identify_nodes {source : Source} {module : Module}
    (h : parse source = .ok module) :
    module.Distinguishes ∧
    (∀ i, i ∈ (visited module.body).filterMap Node.stmtNumber? ↔ i < module.statements) ∧
    ∀ route, (module.invokeEntryPoints route).Distinguishes := by
  have numbered := numbered_of_parse h
  refine ⟨numbered.distinguishes, fun i => ?_, fun route =>
    (numbered.invokeEntryPoints route).distinguishes⟩
  have all := (stmtNumbers_of_parse h).mem_iff (a := i)
  rwa [List.mem_range, stmtNumbers, ← visited_eq] at all

/-- Here expressions are read and dropped: the name of a keyword, the tuple of
what is deleted, and a second star parameter. -/
def droppedExpressions : Source where
  file := "main.py"
  text := "@app.route('/')\ndef f(*a: int, *b: str):\n    del x, y\nf(key=1)\n"

theorem droppedExpressions_identified :
    ∃ module, parse droppedExpressions = .ok module ∧ module.Distinguishes ∧
      (module.expressions, module.statements) = (13, 3) ∧
      (module.invokeEntryPoints "route").Distinguishes := by
  have counts : (parse droppedExpressions).toOption.map
      (fun module => (module.expressions, module.statements)) = some (13, 3) := by
    decide +kernel
  cases hp : parse droppedExpressions with
  | error e => rw [hp] at counts; cases counts
  | ok module =>
    rw [hp] at counts
    obtain ⟨distinct, -, application⟩ := numbers_identify_nodes hp
    exact ⟨module, rfl, distinct, Option.some.inj counts, application "route"⟩

end SdkUsage
