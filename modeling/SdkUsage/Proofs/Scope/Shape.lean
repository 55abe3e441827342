/-
The tree of scopes that a table holds: what opened each scope, and in which scope it was
opened. Acts that open scopes append to it and all others leave it as it is, so that it can
be read off the acts (`opened_shape`, `exists_opening`).
-/
import SdkUsage.Proofs.Scope.Distinct

namespace SdkUsage

open SdkUsage.Tree

/-- Name and kind of a scope and the scope around it. -/
def Scope.shape (scope : Scope) : String × ScopeKind × Option Nat :=
  (scope.name, scope.kind, scope.parent)

namespace SymbolTable

/-- The scopes of a table without the names in them. -/
def shapes (table : SymbolTable) : List (String × ScopeKind × Option Nat) :=
  table.scopes.map Scope.shape

@[simp] theorem length_shapes (table : SymbolTable) : table.shapes.length = table.scopes.length :=
  List.length_map _

theorem shapes_getElem? (table : SymbolTable) (id : Nat) :
    table.shapes[id]? = (table.scope? id).map Scope.shape := List.getElem?_map ..

theorem shapes_modifyScope (table : SymbolTable) (id : Nat) {f : Scope → Scope}
    (hf : ∀ scope, (f scope).shape = scope.shape) : (table.modifyScope id f).shapes = table.shapes := by
  refine List.ext_getElem? fun other => ?_
  rw [shapes_getElem?, shapes_getElem?, scope?_modifyScope]
  split
  · cases table.scope? other with
    | none => rfl
    | some scope => exact congrArg some (hf scope)
  · rfl

theorem shapes_pushScope (table : SymbolTable) (parent : Nat) (name : String) (kind : ScopeKind) :
    (table.pushScope parent name kind).shapes = table.shapes ++ [(name, kind, some parent)] := by
  have old := table.shapes_modifyScope parent fun scope =>
    show (scope.addChild table.scopes.length).shape = scope.shape from rfl
  unfold shapes modifyScope at old
  simp only [shapes, pushScope, List.map_append, old]
  rfl

theorem shapes_classify (table : SymbolTable) (declarations : Declarations) :
    (table.classify declarations).shapes = table.shapes := by
  simp only [shapes, classify, List.map_map]
  rfl

end SymbolTable

namespace ScopeBuilder

variable {builder : ScopeBuilder}

/-- What an act adds to the tree, done in a scope. -/
def grown (current : Nat) : Act → List (String × ScopeKind × Option Nat)
  | .enter name kind => [(name, kind, some current)]
  | .use .. | .declare .. | .leave _ => []

theorem run_shapes (builder : ScopeBuilder) (act : Act) :
    (builder.run act).table.shapes = builder.table.shapes ++ grown builder.current act := by
  cases act with
  | use name usage =>
    rw [grown, List.append_nil]
    exact builder.table.shapes_modifyScope _ fun _ => rfl
  | declare name binding => rw [grown, List.append_nil]; rfl
  | enter name kind => exact builder.table.shapes_pushScope _ _ _
  | leave mark =>
    rw [grown, List.append_nil]
    cases mark with
    | none => rw [run, close_table]
    | some d => rw [run, close_table]; rfl

theorem runAll_shapes (builder : ScopeBuilder) (acts : List Act) :
    builder.table.shapes <+: (builder.runAll acts).table.shapes := by
  induction acts generalizing builder with
  | nil => exact List.prefix_rfl
  | cons act acts ih =>
    rw [runAll_cons]
    refine List.IsPrefix.trans ?_ (ih (builder.run act))
    rw [run_shapes]
    exact List.prefix_append _ _

/-- **A scope is what the act that opened it says,** in the scope that was current. -/
theorem opened_shape (builder : ScopeBuilder) {acts before after : List Act} {name : String}
    {kind : ScopeKind} (h : acts = before ++ .enter name kind :: after) :
    (builder.runAll acts).table.shapes[(builder.runAll before).table.scopes.length]? =
      some (name, kind, some (builder.runAll before).current) := by
  rw [h, runAll_append, runAll_cons]
  obtain ⟨later, hlater⟩ := ((builder.runAll before).run (.enter name kind)).runAll_shapes after
  rw [← hlater, run_shapes, grown, ← SymbolTable.length_shapes]
  simp

/-- **Every scope was opened by an act.** -/
theorem exists_opening (builder : ScopeBuilder) {acts : List Act} {id : Nat} {name : String}
    {kind : ScopeKind} {parent : Option Nat}
    (h : (builder.runAll acts).table.shapes[id]? = some (name, kind, parent))
    (hid : builder.table.scopes.length ≤ id) :
    ∃ before after, acts = before ++ .enter name kind :: after ∧
      id = (builder.runAll before).table.scopes.length := by
  induction acts generalizing builder with
  | nil =>
    have lt := (List.getElem?_eq_some_iff.1 h).1
    rw [SymbolTable.length_shapes] at lt
    exact absurd lt (Nat.not_lt.2 hid)
  | cons act acts ih =>
    by_cases hlater : (builder.run act).table.scopes.length ≤ id
    · obtain ⟨before, after, rfl, rfl⟩ := ih (builder.run act) h hlater
      exact ⟨act :: before, after, rfl, rfl⟩
    · have length := congrArg List.length (builder.run_shapes act)
      rw [List.length_append, SymbolTable.length_shapes, SymbolTable.length_shapes] at length
      cases act with
      | enter name' kind' =>
        have hid' : id = builder.table.scopes.length := by
          simp only [grown, List.length_singleton] at length
          omega
        have opened := @opened_shape builder (.enter name' kind' :: acts) [] acts name' kind' rfl
        subst hid'
        cases h.symm.trans opened
        exact ⟨[], acts, rfl, rfl⟩
      | use | declare | leave =>
        simp only [grown, List.length_nil] at length
        omega

end ScopeBuilder

end SdkUsage
