/-
The symbol table of a module. First the acts of the module are run one after
another: scopes are opened and the uses of names counted. Then every name is
classified, since a use may come before the binding it refers to.

Comprehensions open no scope: their targets belong to the scope around them.
-/
import SdkUsage.Scope.Act

namespace SdkUsage

open SdkUsage.Tree

/-- The declarations `global` and `nonlocal` of all scopes. -/
abbrev Declarations := SortedMap (Nat × String) Binding

/-- A table while acts are run: the scope the next act belongs to, the scopes
around it from the inside out, and the declarations so far. -/
structure ScopeBuilder where
  table : SymbolTable := ∅
  declarations : Declarations := ∅
  current : Nat := SymbolTable.root
  outer : List Nat := []

namespace ScopeBuilder

/-- Goes back to the scope around the current one. -/
def close (builder : ScopeBuilder) : ScopeBuilder :=
  match builder.outer with
  | [] => builder
  | scope :: outer => { builder with current := scope, outer }

/-- Remembers which function definition the current scope belongs to. -/
def assign (builder : ScopeBuilder) (definition : Nat) : ScopeBuilder :=
  { builder with
    table := { builder.table with
      definitionScopes := builder.table.definitionScopes.insert definition builder.current } }

/-- Runs one act. -/
def run (builder : ScopeBuilder) : Act → ScopeBuilder
  | .use name usage =>
    { builder with
      table := builder.table.modifyScope builder.current (·.noteUse name usage) }
  | .declare name binding =>
    { builder with
      declarations := builder.declarations.insert (builder.current, name) binding }
  | .enter name kind =>
    { builder with
      table := builder.table.pushScope builder.current name kind
      current := builder.table.scopes.length
      outer := builder.current :: builder.outer }
  | .leave none => builder.close
  | .leave (some definition) => (builder.assign definition).close

/-- Runs acts one after another. -/
def runAll (builder : ScopeBuilder) (acts : List Act) : ScopeBuilder := acts.foldl run builder

end ScopeBuilder

namespace SymbolTable

/-- The scopes around a scope, from the inside out. Numbers grow inwards, so
the way out ends. -/
def enclosing (table : SymbolTable) (id : Nat) : List Scope :=
  match (table.scope? id).bind (·.parent) with
  | none => []
  | some parent =>
    if _h : parent < id then (table.scope? parent).toList ++ table.enclosing parent else []
termination_by id

end SymbolTable

/-- Whether a name is bound in a function around a scope, given the scopes from
the inside out. Classes are passed over and the module ends the way. A
function that declares the name global hides the functions around it. -/
def boundAround (declarations : Declarations) (name : String) : List Scope → Bool
  | [] => false
  | scope :: outer =>
    match scope.kind with
    | .module => false
    | .classBody => boundAround declarations name outer
    | .function | .lambda =>
      match declarations.get? (scope.id, name) with
      | some .globalExplicit => false
      | some _ => true
      | none => (scope.symbol? name).any (·.assigned) || boundAround declarations name outer

/-- Where a name of a scope is bound, given the scopes around it. -/
def Symbol.classify (declarations : Declarations) (scope : Scope) (outer : List Scope)
    (symbol : Symbol) : Binding :=
  match declarations.get? (scope.id, symbol.name) with
  | some binding => binding
  | none =>
    if symbol.assigned then .local
    else if scope.kind ≠ .module ∧ boundAround declarations symbol.name outer then .free
    else .globalImplicit

namespace SymbolTable

/-- Classifies the names of all scopes. -/
def classify (table : SymbolTable) (declarations : Declarations) : SymbolTable :=
  let scope := fun (scope : Scope) =>
    let outer := table.enclosing scope.id
    { scope with
      symbols := scope.symbols.mapValues fun _ symbol =>
        { symbol with binding := symbol.classify declarations scope outer } }
  { table with scopes := table.scopes.map scope }

/-- **The symbol table of a module.** -/
def build (module : Module) : SymbolTable :=
  let builder := ScopeBuilder.runAll {} module.acts
  builder.table.classify builder.declarations

end SymbolTable

end SdkUsage
