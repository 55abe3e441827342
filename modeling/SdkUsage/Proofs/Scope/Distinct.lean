/-
Different functions have different scopes, and none has the scope of the
module. A scope is marked with its function when it is closed. While it is open
no function is marked with it, and once closed it is never open again, so that a
scope is marked at most once.
-/
import SdkUsage.Proofs.Scope.Build

namespace SdkUsage

open SdkUsage.Tree

namespace ScopeBuilder

/-- The scopes that are open are different ones, those that functions are marked
with are closed, and different functions are marked with different scopes. -/
structure Marked (builder : ScopeBuilder) : Prop where
  sound : builder.Sound
  opened : (builder.current :: builder.outer).Nodup
  closed : ∀ {i id}, builder.table.definitionScope? i = some id →
    id < builder.table.scopes.length ∧ id ∉ builder.current :: builder.outer
  injective : ∀ {i j id}, builder.table.definitionScope? i = some id →
    builder.table.definitionScope? j = some id → i = j

theorem marked_start : Marked {} where
  sound := sound_start
  opened := by simp
  closed := by rintro _ _ ⟨⟩
  injective := by rintro _ _ _ ⟨⟩

variable {builder : ScopeBuilder}

/-- A scope that is opened is a new one. -/
theorem Marked.enter (h : builder.Marked) (name : String) (kind : ScopeKind) :
    (builder.run (.enter name kind)).Marked := by
  have length : (builder.run (.enter name kind)).table.scopes.length
      = builder.table.scopes.length + 1 := by
    simp [run, SymbolTable.pushScope]
  have fresh : builder.table.scopes.length ∉ builder.current :: builder.outer := by
    intro hmem
    rcases List.mem_cons.1 hmem with he | ho
    · exact Nat.lt_irrefl _ (he ▸ h.sound.current)
    · exact Nat.lt_irrefl _ (h.sound.outer _ ho)
  refine ⟨h.sound.run _, List.nodup_cons.2 ⟨fresh, h.opened⟩, fun {i id} hi => ?_, h.injective⟩
  have old := h.closed hi
  refine ⟨by omega, fun hmem => ?_⟩
  rcases List.mem_cons.1 hmem with he | ho
  · exact Nat.ne_of_lt old.1 he
  · exact old.2 ho

/-- The scope that is closed is marked, and was not before. -/
theorem Marked.leave (h : builder.Marked) {id : Nat} {outer : List Nat}
    (ho : builder.outer = id :: outer) (mark : Option Nat) : (builder.run (.leave mark)).Marked := by
  have opened := h.opened
  rw [ho] at opened
  have inner := (List.nodup_cons.1 opened).2
  have marked := fun {i k} (hi : builder.table.definitionScope? i = some k) => ho ▸ (h.closed hi)
  cases mark with
  | none =>
    have run : builder.run (.leave none) = { builder with current := id, outer } := by
      simp [run, close, ho]
    refine ⟨h.sound.run _, ?_, ?_, ?_⟩ <;> rw [run]
    · exact inner
    · exact fun hi => ⟨(marked hi).1, fun hm => (marked hi).2 (List.mem_cons_of_mem _ hm)⟩
    · exact h.injective
  | some d =>
    have run : builder.run (.leave (some d))
        = { builder.assign d with current := id, outer } := by
      simp [run, close, assign, ho]
    have found : ∀ i, (builder.assign d).table.definitionScope? i
        = if i = d then some builder.current else builder.table.definitionScope? i :=
      fun i => SortedMap.get?_insert ..
    refine ⟨h.sound.run _, ?_, ?_, ?_⟩ <;> rw [run]
    · exact inner
    · intro i k hi
      rw [found] at hi
      split at hi
      · cases hi
        exact ⟨h.sound.current, (List.nodup_cons.1 opened).1⟩
      · exact ⟨(marked hi).1, fun hm => (marked hi).2 (List.mem_cons_of_mem _ hm)⟩
    · -- No other function is marked with a scope that is open.
      have current : ∀ {i}, builder.table.definitionScope? i ≠ some builder.current :=
        fun hi => (h.closed hi).2 List.mem_cons_self
      intro i j k hi hj
      rw [found] at hi hj
      split at hi <;> split at hj
      · next hid hjd => rw [hid, hjd]
      · cases hi
        exact absurd hj current
      · cases hj
        exact absurd hi current
      · exact h.injective hi hj

/-- **Acts that close the scopes they open mark each scope once.** -/
theorem Marked.runAll {acts : List Act} (hc : Closed acts) (h : builder.Marked) :
    (builder.runAll acts).Marked := by
  induction hc generalizing builder with
  | nil => exact h
  | @inside act hi =>
    change (builder.run act).Marked
    cases act with
    | use name usage =>
      have length : (builder.run (.use name usage)).table.scopes.length
          = builder.table.scopes.length := by
        simp [run, SymbolTable.modifyScope]
      exact ⟨h.sound.run _, h.opened, fun hi => ⟨length ▸ (h.closed hi).1, (h.closed hi).2⟩,
        h.injective⟩
    | declare name binding => exact ⟨h.sound.run _, h.opened, h.closed, h.injective⟩
    | enter => cases hi
    | leave => cases hi
  | append _ _ iha ihb =>
    rw [runAll_append]
    exact ihb (iha h)
  | @scope name kind acts mark hin ih =>
    rw [runAll_cons, runAll_append]
    have outer : ((builder.run (.enter name kind)).runAll acts).outer
        = builder.current :: builder.outer := (runAll_closed hin _).2
    exact (ih (h.enter name kind)).leave outer mark

end ScopeBuilder

namespace SymbolTable

variable {module : Module}

theorem marked_build (module : Module) : (ScopeBuilder.runAll {} module.acts).Marked := by
  refine ScopeBuilder.Marked.runAll ?_ ScopeBuilder.marked_start
  exact closed_flatMap fun n _ => n.acts_closed .read

/-- **Different functions have different scopes.** -/
theorem definitionScope?_injective {i j id : Nat}
    (hi : (build module).definitionScope? i = some id)
    (hj : (build module).definitionScope? j = some id) : i = j :=
  (marked_build module).injective hi hj

/-- No function has the scope of the module. -/
theorem definitionScope?_ne_root {i id : Nat}
    (h : (build module).definitionScope? i = some id) : id ≠ root := by
  have current : (ScopeBuilder.runAll {} module.acts).current = root :=
    (ScopeBuilder.runAll_closed (closed_flatMap fun n _ => n.acts_closed .read) {}).1
  intro hr
  exact ((marked_build module).closed h).2 (List.mem_cons.2 (.inl (hr.trans current.symm)))

end SymbolTable

end SdkUsage
