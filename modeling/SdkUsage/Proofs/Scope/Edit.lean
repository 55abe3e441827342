/-
Edits made by hand leave a table a tree: opening a scope, and putting a name
into one. An edit fails if there is no scope to make it in, and then changes
nothing.

Therefore the way out of a scope always ends at the root (`IsTree.climb`).
-/
import SdkUsage.Grammar.Statement
import SdkUsage.Proofs.Scope.Build

namespace SdkUsage

theorem Scope.keeps_putSymbol (scope : Scope) (symbol : Symbol) :
    scope.Keeps (scope.putSymbol symbol) := by
  refine ⟨rfl, rfl, rfl, fun h other found hs => ?_⟩
  rw [Scope.putSymbol, Scope.symbol?, SortedMap.get?_insert] at hs
  split at hs
  · next ho =>
    cases hs
    exact ho.symm
  · exact h hs

namespace SymbolTable

/-! ## Edits by hand -/

/-- An edit of a table: a scope is opened in another one, or a name is put into a scope. -/
inductive Edit where
  | openScope (parent : Nat) (name : String) (kind : ScopeKind)
  | declareName (id : Nat) (name : String) (binding : Binding)

namespace Edit

/-- The scope in which an edit is made. -/
def scope : Edit → Nat
  | openScope parent _ _ => parent
  | declareName id _ _ => id

/-- The outcome of an edit. -/
def outcome (table : SymbolTable) : Edit → Except ScopeError SymbolTable
  | openScope parent name kind => return (← table.openScope parent name kind).2
  | declareName id name binding => table.declareName id name binding

end Edit

/-- The table after an edit, which is the one before it if the edit fails. -/
def edit (table : SymbolTable) (edit : Edit) : SymbolTable :=
  match edit.outcome table with
  | .ok edited => edited
  | .error _ => table

/-- The table after edits made one after another. -/
def editAll (table : SymbolTable) (edits : List Edit) : SymbolTable := edits.foldl edit table

/-- An edit fails exactly if there is no scope to make it in, and says so. -/
theorem Edit.outcome_error_iff {table : SymbolTable} {edit : Edit} {error : ScopeError} :
    edit.outcome table = .error error ↔
      table.scope? edit.scope = none ∧ error = .unknownScope edit.scope := by
  have missing (id : Nat) : table.scope? id = none ↔ ¬ id < table.scopes.length :=
    List.getElem?_eq_none_iff.trans Nat.not_lt.symm
  rw [missing]
  cases edit with
  | openScope parent name kind =>
    by_cases hp : parent < table.scopes.length
    · simp [Edit.outcome, SymbolTable.openScope, Edit.scope, hp, pure, Except.pure, bind, Except.bind]
    · simp [Edit.outcome, SymbolTable.openScope, Edit.scope, hp, bind, Except.bind, eq_comm]
  | declareName id name binding =>
    by_cases hid : id < table.scopes.length
    · simp [Edit.outcome, SymbolTable.declareName, Edit.scope, hid]
    · simp [Edit.outcome, SymbolTable.declareName, Edit.scope, hid, eq_comm]

theorem IsTree.edit {table : SymbolTable} (h : table.IsTree) (edit : Edit) :
    (table.edit edit).IsTree := by
  rw [SymbolTable.edit]
  cases edit with
  | openScope parent name kind =>
    by_cases hp : parent < table.scopes.length
    · simp only [Edit.outcome, SymbolTable.openScope, if_pos hp]
      exact h.pushScope hp name kind
    · simp only [Edit.outcome, SymbolTable.openScope, if_neg hp]
      exact h
  | declareName id name binding =>
    by_cases hid : id < table.scopes.length
    · simp only [Edit.outcome, SymbolTable.declareName, if_pos hid]
      exact h.modifyScope id fun scope => scope.keeps_putSymbol _
    · simp only [Edit.outcome, SymbolTable.declareName, if_neg hid]
      exact h

theorem IsTree.editAll {table : SymbolTable} (h : table.IsTree) (edits : List Edit) :
    (table.editAll edits).IsTree := by
  induction edits generalizing table with
  | nil => exact h
  | cons edit edits ih => exact ih (h.edit edit)

/-! ## The way out -/

/-- The way from a scope along the scopes around it, to one that stands in none. -/
inductive Climb (table : SymbolTable) : Nat → List Nat → Prop where
  | done {id : Nat} (top : table.parent? id = none) : Climb table id []
  | step {id parent : Nat} {way : List Nat} (up : table.parent? id = some parent)
      (rest : Climb table parent way) : Climb table id (parent :: way)

/-- **The way out of every scope of a tree ends at the root,** and it is the one that is
gone when names are classified. -/
theorem IsTree.climb {table : SymbolTable} (h : table.IsTree) {id : Nat}
    (hid : id < table.scopes.length) :
    ∃ way, table.Climb id way ∧ (id :: way).getLast? = some root ∧
      (table.enclosing id).map Scope.id = way := by
  induction id using Nat.strongRecOn with
  | _ id ih =>
    obtain ⟨scope, hs⟩ := exists_scope hid
    by_cases hr : id = root
    · obtain ⟨top, ht, hn⟩ := h.rooted
      have up : table.parent? id = none := by rw [hr, parent?, ht, Option.bind_some, hn]
      refine ⟨[], .done up, by rw [hr]; rfl, ?_⟩
      rw [enclosing, show (table.scope? id).bind (·.parent) = none from up]
      rfl
    · obtain ⟨parent, hp, lt⟩ := h.inside hs hr
      have up : table.parent? id = some parent := by rw [parent?, hs, Option.bind_some, hp]
      have hparent := Nat.lt_trans lt hid
      obtain ⟨way, rest, last, outer⟩ := ih parent lt hparent
      obtain ⟨around, ha⟩ := exists_scope hparent
      refine ⟨parent :: way, .step up rest, by rw [List.getLast?_cons_cons]; exact last, ?_⟩
      rw [enclosing, show (table.scope? id).bind (·.parent) = some parent from up]
      simp only [dif_pos lt, ha, Option.toList_some, List.singleton_append, List.map_cons, outer,
        h.numbered ha]

/-- **Tables stay trees,** whatever edits are made by hand in the table of a module or in one
with a module's scope only. An edit fails exactly if there is no scope to make it in, and
then the table is the one it was; and the way out of every scope ends at the root. -/
theorem edits_keep_tree {start : SymbolTable}
    (hs : start = ∅ ∨ ∃ module, start = build module) (edits : List Edit) :
    (start.editAll edits).IsTree ∧
    (∀ (edit : Edit) (error : ScopeError), edit.outcome (start.editAll edits) = .error error ↔
      (start.editAll edits).scope? edit.scope = none ∧ error = .unknownScope edit.scope) ∧
    (∀ edit : Edit, (start.editAll edits).scope? edit.scope = none →
      start.editAll (edits ++ [edit]) = start.editAll edits) ∧
    ∀ id < (start.editAll edits).scopes.length,
      ∃ way, (start.editAll edits).Climb id way ∧ (id :: way).getLast? = some root ∧
        ((start.editAll edits).enclosing id).map Scope.id = way := by
  have tree : start.IsTree := by
    rcases hs with rfl | ⟨module, rfl⟩
    · exact isTree_empty
    · exact isTree_build module
  have edited := tree.editAll edits
  refine ⟨edited, fun _ _ => Edit.outcome_error_iff, fun edit missing => ?_,
    fun id hid => edited.climb hid⟩
  rw [editAll, List.foldl_append, List.foldl_cons, List.foldl_nil]
  change (start.editAll edits).edit edit = _
  rw [SymbolTable.edit, Edit.outcome_error_iff.2 ⟨missing, rfl⟩]

/-- A class in a function that has a method and a lambda. -/
def classInside : Source where
  file := "main.py"
  text := "def f():\n  class C:\n    def m(): pass\n    k = lambda: 0\n"

/-- A scope is opened in the class, another where there is none, and one in the first. -/
def editedInside : List Edit :=
  [.openScope 2 "n" .function, .openScope 9 "n" .function, .declareName 5 "x" .free,
    .openScope 5 "C" .classBody]

theorem classInside_keeps_tree : ∃ module, parse classInside = .ok module ∧
    ((build module).editAll editedInside).scopes.map Scope.children
      = [[1], [2], [3, 4, 5], [], [], [6], []] ∧
    ((build module).editAll editedInside).IsTree := by
  have lists : (parse classInside).toOption.map
      (fun module => ((build module).editAll editedInside).scopes.map Scope.children)
      = some [[1], [2], [3, 4, 5], [], [], [6], []] := by
    decide +kernel
  cases hp : parse classInside with
  | error e => rw [hp] at lists; cases lists
  | ok module =>
    rw [hp] at lists
    exact ⟨module, rfl, Option.some.inj lists,
      (edits_keep_tree (.inr ⟨module, rfl⟩) editedInside).1⟩

end SymbolTable

end SdkUsage
