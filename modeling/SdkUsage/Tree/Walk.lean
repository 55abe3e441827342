/-
Walking the tree. `Node.preorder` lists a node and everything below it, each
node before its parts and parts in source order. `Node.walk` visits the same
nodes one after another with an effect, and passes over the parts of a node
where the visitor says so.
-/
import SdkUsage.Tree.Stmt

namespace SdkUsage.Tree

/-- Does something with each member of a list, in order. What is done may use
that it is a member. -/
def forEach {m : Type → Type} [Monad m] {α : Type} :
    (xs : List α) → ((x : α) → x ∈ xs → m Unit) → m Unit
  | [], _ => pure ()
  | x :: xs, f => do
    f x (List.mem_cons_self ..)
    forEach xs fun y h => f y (List.mem_cons_of_mem x h)

namespace Node

/-- A node and all nodes below it. -/
def preorder (node : Node) : List Node :=
  node :: node.children.attach.flatMap fun child => preorder child.1
termination_by node.rank
decreasing_by exact rank_lt_of_mem_children child.2

theorem preorder_eq (node : Node) : node.preorder = node :: node.children.flatMap preorder := by
  rw [preorder, List.flatMap_subtype (g := preorder) fun _ _ => rfl, List.unattach_attach]

/-- Visits a node and, where the visitor answers `true`, what is below it. -/
def walk {m : Type → Type} [Monad m] (visit : Node → m Bool) (node : Node) : m Unit := do
  if ← visit node then
    forEach node.children fun child _ => walk visit child
termination_by node.rank
decreasing_by exact rank_lt_of_mem_children (by assumption)

end Node

/-- Visits the statements of a list and what is below them. -/
def walkStmts {m : Type → Type} [Monad m] (visit : Node → m Bool) (stmts : List Stmt) : m Unit :=
  forEach (stmtNodes stmts) fun node _ => node.walk visit

/-- All nodes of a module, in source order. -/
def Module.nodes (module : Module) : List Node := (stmtNodes module.body).flatMap Node.preorder

/-- The function a node defines. -/
def Node.function? : Node → Option Function
  | stmt (.functionDef definition) => some definition
  | _ => none

/-- All function definitions of a module, in source order, also those inside
other definitions. -/
def Module.functions (module : Module) : List Function := module.nodes.filterMap Node.function?

end SdkUsage.Tree
