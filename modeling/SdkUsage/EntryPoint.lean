/-
Entry points: functions that a framework calls, marked by a decorator such as
`@app.route('/path')`. The program itself has no call of them, so one is put
right behind each of their definitions.

Definitions are looked for in the module, in compound statements and in
classes, not inside functions. The new nodes are numbered behind those of the
module.
-/
import SdkUsage.Tree.Stmt

namespace SdkUsage

open SdkUsage.Tree

/-- Whether a decorator calls a method with a name, with at least one
positional argument. -/
def isRoute (route : String) : Expr → Bool
  | .call _ (.member _ _ attr) args _ => attr.text = route && !args.isEmpty
  | _ => false

/-- Whether a framework calls a function. -/
def Tree.FunctionDef.isEntryPoint (route : String) (definition : Function) : Bool :=
  definition.decorators.any (isRoute route)

namespace EntryPoint

/-- The numbers of expressions and statements so far. -/
structure Counts where
  expressions : Nat
  statements : Nat

/-- The call of a function, with the next numbers. Its nodes stand where the
name of the function stands. -/
def callOf (definition : Function) (counts : Counts) : Stmt :=
  let span := definition.name.span
  let func := Expr.name ⟨span, counts.expressions⟩ definition.name.text
  .expr ⟨span, counts.statements⟩ (.call ⟨span, counts.expressions + 1⟩ func [] [])

/-- The numbers after a call is added. -/
def Counts.next (counts : Counts) : Counts := ⟨counts.expressions + 2, counts.statements + 1⟩

/-- The statements that follow a statement: a call, if it defines an entry
point. -/
def callsAfter (route : String) : Stmt → StateM Counts (List Stmt)
  | .functionDef definition => fun counts =>
    if definition.isEntryPoint route then ([callOf definition counts], counts.next)
    else ([], counts)
  | _ => return []

mutual

/-- A statement with calls of the entry points inside it. -/
def ofStmt (route : String) : Stmt → StateM Counts Stmt
  | .branch site test body orelse => do
    return .branch site test (← ofStmts route body) (← ofStmts route orelse)
  | .whileLoop site test body orelse => do
    return .whileLoop site test (← ofStmts route body) (← ofStmts route orelse)
  | .forLoop site target iter body orelse isAsync => do
    return .forLoop site target iter (← ofStmts route body) (← ofStmts route orelse) isAsync
  | .withBlock site items body isAsync => do
    return .withBlock site items (← ofStmts route body) isAsync
  | .tryBlock site body handlers orelse finalbody => do
    return .tryBlock site (← ofStmts route body) (← ofHandlers route handlers)
      (← ofStmts route orelse) (← ofStmts route finalbody)
  | .classDef definition => return .classDef (← ofClass route definition)
  | stmt => return stmt

/-- Statements with calls of the entry points among them and inside them. -/
def ofStmts (route : String) : List Stmt → StateM Counts (List Stmt)
  | [] => return []
  | stmt :: stmts => do
    let first ← ofStmt route stmt
    let calls ← callsAfter route stmt
    return first :: calls ++ (← ofStmts route stmts)

/-- Handlers with calls of the entry points inside them. -/
def ofHandlers (route : String) : List (Handler Stmt) → StateM Counts (List (Handler Stmt))
  | [] => return []
  | handler :: handlers => do
    return (← ofHandler route handler) :: (← ofHandlers route handlers)

/-- A handler with calls of the entry points inside it. -/
def ofHandler (route : String) : Handler Stmt → StateM Counts (Handler Stmt)
  | ⟨span, type, name, body⟩ => return ⟨span, type, name, ← ofStmts route body⟩

/-- A class with calls of the entry points inside it. -/
def ofClass (route : String) : ClassDef Stmt → StateM Counts (ClassDef Stmt)
  | ⟨site, name, bases, keywords, decorators, body⟩ =>
    return ⟨site, name, bases, keywords, decorators, ← ofStmts route body⟩

end

end EntryPoint

/-- **The module with a call behind the definition of each entry point.** -/
def Tree.Module.invokeEntryPoints (route : String) (module : Module) : Module :=
  let counts := ⟨module.expressions, module.statements⟩
  let (body, counts) := (EntryPoint.ofStmts route module.body).run counts
  ⟨body, counts.expressions, counts.statements⟩

end SdkUsage
