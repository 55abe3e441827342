/-
What a program does to names, as one list. `Node.acts` runs through a node in
the order in which its parts are evaluated, and lists the names it uses, the
names it declares global or nonlocal, and the scopes it opens and closes.

`steps` describes a single node: acts of its own, and parts that follow with
their acts, each read or bound. They are all the parts of the node, each once
(`Node.steps_perm`), which is why `acts` ends.
-/
import SdkUsage.Scope.Table
import SdkUsage.Tree.Stmt

namespace SdkUsage

open SdkUsage.Tree

/-- Something done to a name, or a scope that is opened or closed. A scope that
belongs to a function definition is closed with the number of the definition. -/
inductive Act where
  | use (name : String) (usage : Usage)
  | declare (name : String) (binding : Binding)
  | enter (name : String) (kind : ScopeKind)
  | leave (definition : Option Nat)
  deriving DecidableEq

/-- Whether an expression is read, or something is bound to it. -/
inductive Role where
  | read
  | bind
  deriving DecidableEq

/-- An act of a node itself, or a part of it whose acts follow. -/
inductive Step where
  | act (act : Act)
  | part (role : Role) (node : Node)

namespace Step

/-- A use of a name. -/
def use (usage : Usage) (name : String) : Step := act (.use name usage)

/-- An expression that is read. -/
def read (expr : Expr) : Step := part .read (.expr expr)

/-- An expression that something is bound to. -/
def bind (expr : Expr) : Step := part .bind (.expr expr)

/-- A statement. -/
def stmt (stmt : Stmt) : Step := part .read (.stmt stmt)

end Step

namespace Tree

/-- A clause of a comprehension evaluates what it runs over first. -/
def Comprehension.steps (clause : Comprehension Expr) : List Step :=
  .read clause.iter :: .bind clause.target :: clause.conditions.map .read

/-- Defaults and annotations are evaluated around the function. -/
def Param.steps (param : Param Expr) : List Step :=
  param.default.toList.map .read ++ param.annotation.toList.map .read

/-- Defaults and annotations of all parameters. -/
def Parameters.steps (params : Parameters Expr) : List Step := params.all.flatMap Param.steps

/-- The names of all parameters, inside the function. -/
def Parameters.uses (params : Parameters Expr) : List Step :=
  params.all.map fun param => .use .parameter param.name.text

/-- Where an item of a `with` statement has a target, the context is bound to
it. -/
def WithItem.steps (item : WithItem) : List Step :=
  .read item.context :: item.vars.toList.map .bind

/-- A handler evaluates its type and binds its name. -/
def Handler.steps (handler : Handler Stmt) : List Step :=
  handler.type.toList.map .read ++ (handler.name.toList.map fun n => .use .assigned n.text)
    ++ handler.body.map .stmt

/-- The names an import binds. It is not known what a star brings. -/
def importSteps (names : List Alias) : List Step :=
  (names.filter (·.name ≠ "*")).map fun name => .use .assigned name.boundName

/-- Names that are declared to be bound elsewhere. -/
def declareSteps (binding : Binding) (names : List Ident) : List Step :=
  names.flatMap fun name => [.use .referenced name.text, .act (.declare name.text binding)]

/-- A function binds its name and has a scope of its own. -/
def FunctionDef.steps (definition : Function) : List Step :=
  definition.decorators.map .read ++ definition.params.steps
    ++ definition.returns.toList.map .read
    ++ [.use .assigned definition.name.text, .act (.enter definition.name.text .function)]
    ++ definition.params.uses ++ definition.body.map .stmt
    ++ [.act (.leave (some definition.site.index))]

/-- A class binds its name and has a scope of its own. -/
def ClassDef.steps (definition : ClassDef Stmt) : List Step :=
  definition.decorators.map .read ++ definition.bases.map .read
    ++ (definition.keywords.map fun k => .read k.value)
    ++ [.use .assigned definition.name.text, .act (.enter definition.name.text .classBody)]
    ++ definition.body.map .stmt ++ [.act (.leave none)]

namespace Expr

/-- What reading an expression does. -/
def readSteps : Expr → List Step
  | name _ id => [.use .referenced id]
  | listComp _ element clauses | setComp _ element clauses | generator _ element clauses =>
    clauses.flatMap Comprehension.steps ++ [.read element]
  | dictComp _ key value clauses =>
    clauses.flatMap Comprehension.steps ++ [.read key, .read value]
  | lambda _ params body =>
    params.steps ++ [.act (.enter "lambda" .lambda)] ++ params.uses
      ++ [.read body, .act (.leave none)]
  | named _ target value => [.read value, .bind target]
  | expr => expr.children.map .read

/-- What binding something to an expression does. Tuples and lists are bound
item by item; anything else that is no name is only read. -/
def bindSteps : Expr → List Step
  | name _ id => [.use .assigned id]
  | tuple _ items | list _ items => items.map .bind
  | starred _ value => [.bind value]
  | expr => expr.readSteps

end Expr

/-- An augmented assignment also reads the name it binds. -/
def augmentedUse : Expr → List Step
  | .name _ id => [.use .referenced id]
  | _ => []

/-- What a statement does. A value is evaluated before it is bound. -/
def Stmt.steps : Stmt → List Step
  | assign _ targets value => .read value :: targets.map .bind
  | augAssign _ target _ value => [.read value] ++ augmentedUse target ++ [.bind target]
  | annAssign _ target annotation value =>
    .read annotation :: value.toList.map .read ++ [.bind target]
  | importModules _ names | importFrom _ _ _ names => importSteps names
  | functionDef definition => definition.steps
  | classDef definition => definition.steps
  | forLoop _ target iter body orelse _ =>
    .read iter :: .bind target :: (body ++ orelse).map .stmt
  | withBlock _ items body _ => items.flatMap WithItem.steps ++ body.map .stmt
  | tryBlock _ body handlers orelse finalbody =>
    body.map .stmt ++ handlers.flatMap Handler.steps ++ (orelse ++ finalbody).map .stmt
  | deleting _ targets => targets.map .bind
  | globals _ names => declareSteps .globalExplicit names
  | nonlocals _ names => declareSteps .free names
  | stmt => stmt.children.map (.part .read)

namespace Node

/-- What a node does in a role. -/
def steps : Role → Node → List Step
  | _, stmt s => s.steps
  | .read, expr e => e.readSteps
  | .bind, expr e => e.bindSteps

end Node

end Tree

/-! ## The parts among steps -/

/-- The part that follows in a step. -/
def Step.part? : Step → Option Node
  | .act _ => none
  | .part _ node => some node

/-- The parts among steps, in order. -/
def partsOf (steps : List Step) : List Node := steps.filterMap Step.part?

@[simp] theorem partsOf_nil : partsOf [] = [] := rfl

@[simp] theorem partsOf_act (act : Act) (steps : List Step) :
    partsOf (.act act :: steps) = partsOf steps := rfl

@[simp] theorem partsOf_use (usage : Usage) (name : String) (steps : List Step) :
    partsOf (.use usage name :: steps) = partsOf steps := rfl

@[simp] theorem partsOf_read (e : Expr) (steps : List Step) :
    partsOf (.read e :: steps) = .expr e :: partsOf steps := rfl

@[simp] theorem partsOf_bind (e : Expr) (steps : List Step) :
    partsOf (.bind e :: steps) = .expr e :: partsOf steps := rfl

@[simp] theorem partsOf_append (as bs : List Step) :
    partsOf (as ++ bs) = partsOf as ++ partsOf bs := List.filterMap_append

@[simp] theorem partsOf_flatMap {α : Type} (xs : List α) (f : α → List Step) :
    partsOf (xs.flatMap f) = xs.flatMap fun x => partsOf (f x) := by
  induction xs with
  | nil => rfl
  | cons x xs ih => rw [List.flatMap_cons, partsOf_append, ih, List.flatMap_cons]

@[simp] theorem partsOf_map_read (es : List Expr) : partsOf (es.map .read) = exprNodes es := by
  induction es with
  | nil => rfl
  | cons e es ih => rw [List.map_cons, partsOf_read, ih, exprNodes_cons]

@[simp] theorem partsOf_map_bind (es : List Expr) : partsOf (es.map .bind) = exprNodes es := by
  induction es with
  | nil => rfl
  | cons e es ih => rw [List.map_cons, partsOf_bind, ih, exprNodes_cons]

@[simp] theorem partsOf_map_part (role : Role) (nodes : List Node) :
    partsOf (nodes.map (.part role)) = nodes := by
  induction nodes with
  | nil => rfl
  | cons n nodes ih =>
    show n :: partsOf (nodes.map (.part role)) = n :: nodes
    rw [ih]

@[simp] theorem partsOf_map_stmt (ts : List Stmt) : partsOf (ts.map .stmt) = stmtNodes ts := by
  have whole := partsOf_map_part .read (stmtNodes ts)
  rwa [stmtNodes, List.map_map] at whole

@[simp] theorem partsOf_map_use {α : Type} (xs : List α) (usage : Usage) (f : α → String) :
    partsOf (xs.map fun x => .use usage (f x)) = [] := by
  induction xs with
  | nil => rfl
  | cons x xs ih => rwa [List.map_cons, partsOf_use]

namespace Tree

theorem partsOf_flatMap_perm {α : Type} (xs : List α) {f : α → List Step} {g : α → List Expr}
    (h : ∀ x, (partsOf (f x)).Perm (exprNodes (g x))) :
    (partsOf (xs.flatMap f)).Perm (exprNodes (xs.flatMap g)) := by
  rw [partsOf_flatMap, exprNodes_flatMap]
  induction xs with
  | nil => exact .refl _
  | cons x xs ih => exact (h x).append ih

theorem Comprehension.steps_perm (clauses : List (Comprehension Expr)) :
    (partsOf (clauses.flatMap Comprehension.steps)).Perm
      (exprNodes (clauses.flatMap Comprehension.children)) := by
  refine partsOf_flatMap_perm clauses fun clause => ?_
  rw [Comprehension.steps, partsOf_read, partsOf_bind, partsOf_map_read]
  exact List.Perm.swap _ _ _

theorem Parameters.steps_perm (params : Parameters Expr) :
    (partsOf params.steps).Perm (exprNodes params.children) := by
  refine partsOf_flatMap_perm params.all fun param => ?_
  rw [Param.steps, Param.children, partsOf_append, partsOf_map_read, partsOf_map_read,
    exprNodes_append]
  exact List.perm_append_comm

@[simp] theorem partsOf_uses (params : Parameters Expr) : partsOf params.uses = [] :=
  partsOf_map_use _ _ _

theorem Expr.readSteps_perm (e : Expr) : (partsOf e.readSteps).Perm (exprNodes e.children) := by
  unfold Expr.readSteps
  split
  case h_1 => exact .refl _
  case h_2 | h_3 | h_4 =>
    rw [partsOf_append, Expr.children, exprNodes_cons]
    exact List.perm_append_comm.trans (.cons _ (Comprehension.steps_perm _))
  case h_5 =>
    rw [partsOf_append, Expr.children, exprNodes_cons, exprNodes_cons]
    exact List.perm_append_comm.trans (.cons _ (.cons _ (Comprehension.steps_perm _)))
  case h_6 =>
    simp only [partsOf_append, partsOf_act, partsOf_uses, partsOf_read, partsOf_nil,
      List.append_nil]
    rw [Expr.children, exprNodes_append]
    exact (Parameters.steps_perm _).append (.refl _)
  case h_7 => exact List.Perm.swap _ _ _
  case h_8 => rw [partsOf_map_read]

theorem Expr.bindSteps_perm (e : Expr) : (partsOf e.bindSteps).Perm (exprNodes e.children) := by
  unfold Expr.bindSteps
  split
  case h_1 => exact .refl _
  case h_2 | h_3 => rw [partsOf_map_bind]; exact .refl _
  case h_4 => exact .refl _
  case h_5 => exact Expr.readSteps_perm _

theorem FunctionDef.steps_perm (d : Function) : (partsOf d.steps).Perm d.children := by
  simp only [FunctionDef.steps, partsOf_append, partsOf_use, partsOf_act, partsOf_nil,
    partsOf_uses, partsOf_map_read, partsOf_map_stmt, List.append_nil]
  rw [FunctionDef.children, exprNodes_append, exprNodes_append]
  exact (((List.Perm.refl _).append (Parameters.steps_perm _)).append (.refl _)).append (.refl _)

theorem ClassDef.partsOf_steps (d : ClassDef Stmt) : partsOf d.steps = d.children := by
  have keywords : (d.keywords.map fun k => Step.read k.value)
      = (d.keywords.map (·.value)).map .read := by simp
  rw [ClassDef.steps, keywords]
  simp only [partsOf_append, partsOf_use, partsOf_act, partsOf_nil, partsOf_map_read,
    partsOf_map_stmt, List.append_nil]
  rw [ClassDef.children, exprNodes_append, exprNodes_append]

theorem Handler.partsOf_steps (handler : Handler Stmt) :
    partsOf handler.steps = handler.children := by
  simp only [Handler.steps, partsOf_append, partsOf_map_read, partsOf_map_use, partsOf_map_stmt,
    List.append_nil]
  rfl

theorem WithItem.partsOf_steps (item : WithItem) :
    partsOf item.steps = exprNodes item.children := by
  rw [WithItem.steps, partsOf_read, partsOf_map_bind, WithItem.children, exprNodes_cons]

@[simp] theorem partsOf_importSteps (names : List Alias) : partsOf (importSteps names) = [] :=
  partsOf_map_use _ _ _

@[simp] theorem partsOf_declareSteps (binding : Binding) (names : List Ident) :
    partsOf (declareSteps binding names) = [] := by
  rw [declareSteps, partsOf_flatMap]
  exact List.flatMap_eq_nil_iff.2 fun _ _ => rfl

@[simp] theorem partsOf_augmentedUse (e : Expr) : partsOf (augmentedUse e) = [] := by
  cases e <;> rfl

theorem Stmt.steps_perm (t : Stmt) : (partsOf t.steps).Perm t.children := by
  unfold Stmt.steps
  split
  case h_1 =>
    rw [partsOf_read, partsOf_map_bind, Stmt.children, exprNodes_append]
    exact (List.perm_append_singleton _ _).symm
  case h_2 =>
    rw [partsOf_append, partsOf_append, partsOf_augmentedUse, List.append_nil]
    exact List.Perm.swap _ _ _
  case h_3 =>
    simp only [List.cons_append, partsOf_read, partsOf_append, partsOf_map_read, partsOf_bind,
      partsOf_nil]
    rw [Stmt.children, exprNodes_cons, exprNodes_cons]
    exact (List.Perm.cons _ (List.perm_append_singleton _ _)).trans (.swap _ _ _)
  case h_4 | h_5 => rw [partsOf_importSteps]; exact .refl _
  case h_6 => exact FunctionDef.steps_perm _
  case h_7 => rw [ClassDef.partsOf_steps]; exact .refl _
  case h_8 =>
    rw [partsOf_read, partsOf_bind, partsOf_map_stmt, Stmt.children, stmtNodes_append]
    exact List.Perm.swap _ _ _
  case h_9 =>
    rw [partsOf_append, partsOf_flatMap, partsOf_map_stmt, Stmt.children, exprNodes_flatMap]
    simp only [WithItem.partsOf_steps]
    exact .refl _
  case h_10 =>
    rw [partsOf_append, partsOf_append, partsOf_flatMap, partsOf_map_stmt, partsOf_map_stmt,
      Stmt.children, stmtNodes_append]
    simp only [Handler.partsOf_steps, List.append_assoc]
    exact .refl _
  case h_11 => rw [partsOf_map_bind]; exact .refl _
  case h_12 | h_13 => rw [partsOf_declareSteps]; exact .refl _
  case h_14 => rw [partsOf_map_part]

/-- **Every part of a node is run through, once**, in whatever order. -/
theorem Node.steps_perm (node : Node) (role : Role) :
    (partsOf (node.steps role)).Perm node.children := by
  cases node with
  | stmt t => cases role <;> exact Stmt.steps_perm t
  | expr e =>
    cases role with
    | read => exact Expr.readSteps_perm e
    | bind => exact Expr.bindSteps_perm e

theorem Node.mem_children_of_step {role part : Role} {node child : Node}
    (h : Step.part part child ∈ node.steps role) : child ∈ node.children :=
  (node.steps_perm role).mem_iff.1 (List.mem_filterMap.2 ⟨_, h, rfl⟩)

/-! ## Acts -/

/-- Everything a node does to names, in order. -/
def Node.acts (role : Role) (node : Node) : List Act :=
  (node.steps role).attach.flatMap fun
    | ⟨.act act, _⟩ => [act]
    | ⟨.part part child, _⟩ => child.acts part
termination_by node.rank
decreasing_by exact Node.rank_lt_of_mem_children (Node.mem_children_of_step (by assumption))

/-- Everything a step does to names. -/
def stepActs : Step → List Act
  | .act act => [act]
  | .part role node => node.acts role

theorem Node.acts_eq (role : Role) (node : Node) :
    node.acts role = (node.steps role).flatMap stepActs := by
  rw [Node.acts, List.flatMap_subtype (g := stepActs), List.unattach_attach]
  rintro (act | ⟨part, child⟩) h <;> rfl

/-- Everything a module does to names. -/
def Module.acts (module : Module) : List Act := (stmtNodes module.body).flatMap (Node.acts .read)

end Tree

end SdkUsage
