/-
Scopes and the names in them. Every function, class and lambda opens a scope
inside the one it stands in, and the module is the scope around all. A table
numbers its scopes in the order in which they are opened.

A table is derived from a module (`SymbolTable.build`) or put together by
hand with `openScope` and `declareName`.
-/
import SdkUsage.Data.SortedMap

namespace SdkUsage

/-- What opens a scope. -/
inductive ScopeKind where
  | module
  | function
  | classBody
  | lambda
  deriving DecidableEq

/-- Where a name of a scope is bound: in the scope itself, in the module
because the scope says so or because nothing else binds it, or in a function
around the scope. -/
inductive Binding where
  | local
  | globalExplicit
  | globalImplicit
  | free
  deriving DecidableEq

/-- How a name is used. -/
inductive Usage where
  | assigned
  | referenced
  | parameter
  deriving DecidableEq

/-- A name of a scope. -/
structure Symbol where
  name : String
  binding : Binding
  assigned : Bool
  referenced : Bool
  parameter : Bool
  deriving DecidableEq

namespace Symbol

/-- A name before its first use is counted. -/
def fresh (name : String) : Symbol := ⟨name, .globalImplicit, false, false, false⟩

/-- A name with a given binding. -/
def declared (name : String) (binding : Binding) : Symbol :=
  ⟨name, binding, binding = .local, false, false⟩

/-- Counts a use. A parameter is assigned by the call. -/
def noteUse (symbol : Symbol) : Usage → Symbol
  | .assigned => { symbol with assigned := true }
  | .referenced => { symbol with referenced := true }
  | .parameter => { symbol with parameter := true, assigned := true }

/-- Whether the name stands for the one of the global scope. -/
def isGlobal (symbol : Symbol) : Bool :=
  symbol.binding = .globalExplicit || symbol.binding = .globalImplicit

/-- Whether the scope itself binds the name. -/
def isLocal (symbol : Symbol) : Bool := symbol.binding = .local

end Symbol

/-- A scope: its number, what opened it, the scope around it, its names, and
the scopes opened in it in order. -/
structure Scope where
  id : Nat
  name : String
  kind : ScopeKind
  parent : Option Nat
  symbols : SortedMap String Symbol := ∅
  children : List Nat := []

namespace Scope

/-- A name of the scope. -/
def symbol? (scope : Scope) (name : String) : Option Symbol := scope.symbols.get? name

/-- Adds a name or replaces it. -/
def putSymbol (scope : Scope) (symbol : Symbol) : Scope :=
  { scope with symbols := scope.symbols.insert symbol.name symbol }

/-- Counts a use of a name. -/
def noteUse (scope : Scope) (name : String) (usage : Usage) : Scope :=
  { scope with
    symbols := scope.symbols.insert name
      (((scope.symbol? name).getD (.fresh name)).noteUse usage) }

/-- Adds a scope that is opened in this one. -/
def addChild (scope : Scope) (child : Nat) : Scope :=
  { scope with children := scope.children ++ [child] }

end Scope

/-- Why a scope or a name in it cannot be found. -/
inductive ScopeError where
  | unknownScope (id : Nat)
  | unknownSymbol (scope name : String)
  | unknownChildScope (scope name : String)
  | noDefinition (scope name : String)
  deriving DecidableEq

/-- The text of an error. -/
def ScopeError.message : ScopeError → String
  | unknownScope id => s!"unknown scope id {id}"
  | unknownSymbol scope name => s!"unknown symbol `{name}` in scope `{scope}`"
  | unknownChildScope scope name => s!"unknown child scope `{name}` of scope `{scope}`"
  | noDefinition scope name =>
    s!"no definition registered for symbol `{name}` in scope `{scope}`"

/-- The scopes of a module by number, and the scope that each function
definition opens, by the number of the definition among the statements. -/
structure SymbolTable where
  scopes : List Scope
  definitionScopes : SortedMap Nat Nat

namespace SymbolTable

/-- The number of the module's scope. -/
def root : Nat := 0

/-- The scope of a module before any name is counted. -/
def rootScope : Scope where
  id := root
  name := "top"
  kind := .module
  parent := none

/-- The table with the module's scope only. -/
def empty : SymbolTable := ⟨[rootScope], ∅⟩

instance : EmptyCollection SymbolTable := ⟨empty⟩

/-- The scope with a number. -/
def scope? (table : SymbolTable) (id : Nat) : Option Scope := table.scopes[id]?

/-- A name of a scope. -/
def symbol? (table : SymbolTable) (id : Nat) (name : String) : Option Symbol := do
  (← table.scope? id).symbol? name

/-- The scope that a function definition opens. -/
def definitionScope? (table : SymbolTable) (definition : Nat) : Option Nat :=
  table.definitionScopes.get? definition

/-- The first scope with a name among those opened in a scope. -/
def childNamed? (table : SymbolTable) (id : Nat) (name : String) : Option Nat := do
  (← table.scope? id).children.find? fun child => (table.scope? child).any (·.name = name)

/-- Changes a scope. -/
def modifyScope (table : SymbolTable) (id : Nat) (f : Scope → Scope) : SymbolTable :=
  { table with scopes := table.scopes.modify id f }

/-- Opens a scope in another one. Its number is the number of scopes so far. -/
def pushScope (table : SymbolTable) (parent : Nat) (name : String) (kind : ScopeKind) :
    SymbolTable :=
  let id := table.scopes.length
  let opened : Scope := { id, name, kind, parent := some parent }
  { table with scopes := table.scopes.modify parent (·.addChild id) ++ [opened] }

/-- Opens a scope in one that exists, and gives its number. -/
def openScope (table : SymbolTable) (parent : Nat) (name : String) (kind : ScopeKind) :
    Except ScopeError (Nat × SymbolTable) :=
  if parent < table.scopes.length then
    .ok (table.scopes.length, table.pushScope parent name kind)
  else .error (.unknownScope parent)

/-- Puts a name with a given binding into a scope. -/
def declareName (table : SymbolTable) (id : Nat) (name : String) (binding : Binding) :
    Except ScopeError SymbolTable :=
  if id < table.scopes.length then
    .ok (table.modifyScope id (·.putSymbol (.declared name binding)))
  else .error (.unknownScope id)

end SymbolTable

end SdkUsage
