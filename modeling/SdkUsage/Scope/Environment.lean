/-
What is known about names: the types inferred for them and the functions
defined under them, by scope and name. The table of scopes itself never
changes.

Names are looked up through a namespace: the scope in which the program
stands, and one global scope for names that are not bound there. Writes go to
the local scope only.
-/
import SdkUsage.Scope.Table
import SdkUsage.Tree.Stmt
import SdkUsage.Ty

namespace SdkUsage

open SdkUsage.Tree

/-- The scope in which names are looked up, and the one that global names fall
back to. -/
structure Namespace where
  scope : Nat
  global : Nat
  deriving DecidableEq

namespace Namespace

/-- The namespace of the module. -/
def module : Namespace := ⟨SymbolTable.root, SymbolTable.root⟩

/-- The namespace of a scope opened in the local one, which becomes global. -/
def child (ns : Namespace) (child : Nat) : Namespace := ⟨child, ns.scope⟩

end Namespace

/-- A table of scopes with what is known about its names. -/
structure Environment where
  table : SymbolTable
  types : SortedMap (Nat × String) Ty := ∅
  definitions : SortedMap (Nat × String) Function := ∅

namespace Environment

/-- The scope with a number. -/
def scope (env : Environment) (id : Nat) : Except ScopeError Scope :=
  match env.table.scope? id with
  | some scope => .ok scope
  | none => .error (.unknownScope id)

/-- A name of a scope. -/
def symbol (env : Environment) (id : Nat) (name : String) : Except ScopeError Symbol := do
  let scope ← env.scope id
  match scope.symbol? name with
  | some symbol => .ok symbol
  | none => .error (.unknownSymbol scope.name name)

/-- The scope that holds what is known about a name. There is none for a global
name that the global scope does not have. -/
def owner (env : Environment) (ns : Namespace) (name : String) :
    Except ScopeError (Option Nat) := do
  let symbol ← env.symbol ns.scope name
  if symbol.isGlobal then
    let global ← env.scope ns.global
    return (global.symbol? name).map fun _ => ns.global
  else return some ns.scope

/-- The type inferred for a name. -/
def typeOf (env : Environment) (ns : Namespace) (name : String) :
    Except ScopeError (Option Ty) := do
  return (← env.owner ns name).bind fun id => env.types.get? (id, name)

/-- Records the type of a name of the local scope, or that it has none. -/
def setType (env : Environment) (ns : Namespace) (name : String) (type : Option Ty) :
    Except ScopeError Environment := do
  let _ ← env.symbol ns.scope name
  let key := (ns.scope, name)
  return { env with
    types := match type with
      | some type => env.types.insert key type
      | none => env.types.erase key }

/-- The namespace of the first scope with a name among those opened in the
local scope, else among those opened in the global one. -/
def childNamespace (env : Environment) (ns : Namespace) (name : String) :
    Except ScopeError Namespace :=
  match env.table.childNamed? ns.scope name, env.table.childNamed? ns.global name with
  | some child, _ => .ok ⟨child, ns.scope⟩
  | none, some child => .ok ⟨child, ns.global⟩
  | none, none => do
    let scope ← env.scope ns.scope
    .error (.unknownChildScope scope.name name)

/-- The namespace inside a function definition. Global names fall back to the
scope the definition stands in. -/
def definitionNamespace (env : Environment) (ns : Namespace) (definition : Function) :
    Except ScopeError Namespace :=
  match (env.table.definitionScope? definition.site.index).bind env.table.scope? with
  | some scope => .ok ⟨scope.id, scope.parent.getD ns.global⟩
  | none => do
    let scope ← env.scope ns.scope
    .error (.unknownChildScope scope.name definition.name.text)

/-- Records the function that is defined under a name of the local scope. -/
def register (env : Environment) (ns : Namespace) (name : String) (definition : Function) :
    Except ScopeError Environment := do
  let _ ← env.symbol ns.scope name
  return { env with definitions := env.definitions.insert (ns.scope, name) definition }

/-- The function that is defined under a name. -/
def definition (env : Environment) (ns : Namespace) (name : String) :
    Except ScopeError Function := do
  match (← env.owner ns name).bind fun id => env.definitions.get? (id, name) with
  | some definition => return definition
  | none =>
    let scope ← env.scope ns.scope
    .error (.noDefinition scope.name name)

/-- Whether a function is defined under a name. -/
def defines (env : Environment) (ns : Namespace) (name : String) : Bool :=
  (env.definition ns name).isOk

/-- The name of the local scope. -/
def scopeName (env : Environment) (ns : Namespace) : Except ScopeError String := do
  return (← env.scope ns.scope).name

/-- The names of the local scope. -/
def symbols (env : Environment) (ns : Namespace) : Except ScopeError (List Symbol) := do
  return (← env.scope ns.scope).symbols.values

/-- The types of the names that the local scope binds, in the order of names. -/
def localTypes (env : Environment) (ns : Namespace) :
    Except ScopeError (List (String × Ty)) := do
  let bound := (← env.symbols ns).filter Symbol.isLocal
  return bound.filterMap fun symbol =>
    (env.types.get? (ns.scope, symbol.name)).map (symbol.name, ·)

end Environment

end SdkUsage
