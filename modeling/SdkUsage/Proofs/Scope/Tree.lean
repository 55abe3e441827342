/-
Tables are trees. The scope around each scope, the scopes listed in it, the
numbers and the names are kept in different places and changed separately.
`IsTree` says how they belong together. A change that goes from scope to scope
keeps it (`IsTree.of_keeps`) and so does opening a scope (`IsTree.pushScope`),
which is all that a table is made with.
-/
import SdkUsage.Scope.Build

namespace SdkUsage

/-! ## Scopes -/

theorem Scope.symbol?_noteUse_eq (scope : Scope) (name other : String) (usage : Usage) :
    (scope.noteUse name usage).symbol? other = if other = name then
      some (((scope.symbol? name).getD (.fresh name)).noteUse usage) else scope.symbol? other :=
  SortedMap.get?_insert ..

/-- The names of a scope are kept under themselves. -/
def Scope.Named (scope : Scope) : Prop :=
  ∀ ⦃name symbol⦄, scope.symbol? name = some symbol → symbol.name = name

/-- A scope has another one's place in the tree, and its names are kept under
themselves if the other one's are. -/
structure Scope.Keeps (old new : Scope) : Prop where
  id : new.id = old.id
  parent : new.parent = old.parent
  children : new.children = old.children
  named : old.Named → new.Named

theorem Scope.Keeps.refl (scope : Scope) : scope.Keeps scope := ⟨rfl, rfl, rfl, fun h => h⟩

theorem Scope.keeps_noteUse (scope : Scope) (name : String) (usage : Usage) :
    scope.Keeps (scope.noteUse name usage) := by
  refine ⟨rfl, rfl, rfl, fun h other symbol hs => ?_⟩
  have named (symbol : Symbol) : (symbol.noteUse usage).name = symbol.name := by cases usage <;> rfl
  rw [Scope.symbol?_noteUse_eq] at hs
  split at hs
  · next ho =>
    subst ho
    cases hs
    rw [named]
    cases hold : scope.symbol? other with
    | none => rfl
    | some symbol => exact h hold
  · exact h hs

namespace SymbolTable

variable {table table' : SymbolTable} {id : Nat} {scope : Scope}

theorem scope?_lt (h : table.scope? id = some scope) : id < table.scopes.length :=
  (List.getElem?_eq_some_iff.1 h).1

theorem exists_scope (h : id < table.scopes.length) : ∃ scope, table.scope? id = some scope :=
  ⟨_, List.getElem?_eq_getElem h⟩

theorem scope?_modifyScope (table : SymbolTable) (id other : Nat) (f : Scope → Scope) :
    (table.modifyScope id f).scope? other =
      if other = id then (table.scope? other).map f else table.scope? other := by
  rw [scope?, modifyScope, List.getElem?_modify]
  split
  · next h => simp [h, scope?]
  · next h => simp [Ne.symm h, scope?]

/-- The scope that is opened is the last one. -/
theorem scope?_pushScope (table : SymbolTable) (parent : Nat) (name : String) (kind : ScopeKind) :
    (table.pushScope parent name kind).scope? table.scopes.length =
      some { id := table.scopes.length, name, kind, parent := some parent } := by
  simp [scope?, pushScope]

/-- A scope that was there before another was opened. -/
theorem scope?_pushScope_of_lt (table : SymbolTable) (parent : Nat) (name : String)
    (kind : ScopeKind) (h : id < table.scopes.length) :
    (table.pushScope parent name kind).scope? id =
      if id = parent then (table.scope? id).map (·.addChild table.scopes.length)
      else table.scope? id := by
  rw [← scope?_modifyScope, scope?, pushScope, List.getElem?_append_left]
  · rfl
  · rwa [List.length_modify]

/-- A scope of a table in which one was opened is the one that was opened, or an old one,
which may have it as a child. -/
theorem scope?_pushScope_cases {parent : Nat} {name : String} {kind : ScopeKind}
    (h : (table.pushScope parent name kind).scope? id = some scope) :
    (id = table.scopes.length ∧ scope = { id, name, kind, parent := some parent }) ∨
      ∃ old, table.scope? id = some old ∧
        scope = if id = parent then old.addChild table.scopes.length else old := by
  by_cases hid : id < table.scopes.length
  · obtain ⟨old, hold⟩ := exists_scope hid
    rw [scope?_pushScope_of_lt _ _ _ _ hid, hold] at h
    refine .inr ⟨old, hold, ?_⟩
    split at h
    · next hp => rw [if_pos hp]; exact (Option.some.inj h).symm
    · next hp => rw [if_neg hp]; exact (Option.some.inj h).symm
  · have lt := scope?_lt h
    simp only [pushScope, List.length_append, List.length_modify, List.length_singleton] at lt
    obtain rfl : id = table.scopes.length := by omega
    rw [scope?_pushScope] at h
    exact .inl ⟨rfl, (Option.some.inj h).symm⟩

theorem scope?_classify (table : SymbolTable) (declarations : Declarations) (id : Nat) :
    (table.classify declarations).scope? id = (table.scope? id).map fun scope =>
      { scope with
        symbols := scope.symbols.mapValues fun _ symbol =>
          { symbol with
            binding := symbol.classify declarations scope (table.enclosing scope.id) } } :=
  List.getElem?_map ..

/-- The scope around a scope. -/
def parent? (table : SymbolTable) (id : Nat) : Option Nat := (table.scope? id).bind Scope.parent

theorem parent?_pushScope (table : SymbolTable) (parent : Nat) (name : String) (kind : ScopeKind)
    (child : Nat) : (table.pushScope parent name kind).parent? child =
      if child = table.scopes.length then some parent else table.parent? child := by
  rw [parent?, parent?]
  cases hs : (table.pushScope parent name kind).scope? child with
  | some scope =>
    rcases scope?_pushScope_cases hs with ⟨rfl, rfl⟩ | ⟨old, hold, rfl⟩
    · rw [if_pos rfl]
      rfl
    · rw [if_neg (Nat.ne_of_lt (scope?_lt hold)), hold]
      split <;> rfl
  | none =>
    have missing := List.getElem?_eq_none_iff.1 hs
    simp only [pushScope, List.length_append, List.length_modify, List.length_singleton] at missing
    rw [if_neg (by omega), scope?, List.getElem?_eq_none (by omega)]

/-! ## Trees -/

/-- A table is a tree: a scope lists those that stand in it, in the order of their numbers
and so each of them once; scopes carry their number; the root, and it alone, stands in no
scope, and every other one in a scope with a smaller number; and names are kept under
themselves. -/
structure IsTree (table : SymbolTable) : Prop where
  listed : ∀ {id scope child}, table.scope? id = some scope →
    (child ∈ scope.children ↔ table.parent? child = some id)
  numbered : ∀ {id scope}, table.scope? id = some scope → scope.id = id
  rooted : ∃ scope, table.scope? root = some scope ∧ scope.parent = none
  inside : ∀ {id scope}, table.scope? id = some scope → id ≠ root →
    ∃ parent, scope.parent = some parent ∧ parent < id
  ordered : ∀ {id scope}, table.scope? id = some scope → scope.children.Pairwise (· < ·)
  named : ∀ {id scope}, table.scope? id = some scope → scope.Named

theorem isTree_empty : (∅ : SymbolTable).IsTree := by
  have only {id : Nat} {scope : Scope} (h : (∅ : SymbolTable).scope? id = some scope) :
      id = root ∧ scope = rootScope := by
    cases id with
    | zero => cases h; exact ⟨rfl, rfl⟩
    | succ id => cases h
  refine ⟨fun {id scope child} h => ?_, fun h => ?_, ⟨_, rfl, rfl⟩, fun h hid => ?_, fun h => ?_,
    fun h => ?_⟩
  all_goals obtain ⟨rfl, rfl⟩ := only h
  · have parent : parent? ∅ child = none := by cases child <;> rfl
    rw [parent]
    simp [rootScope]
  · rfl
  · exact absurd rfl hid
  · exact .nil
  · intro name symbol hs
    cases hs

namespace IsTree

theorem parents (h : table.IsTree) {parent : Nat} (hs : table.scope? id = some scope)
    (hp : scope.parent = some parent) : parent < id := by
  by_cases hid : id = root
  · obtain ⟨top, hr, hn⟩ := h.rooted
    subst hid
    cases hs.symm.trans hr
    cases hp.symm.trans hn
  · obtain ⟨parent', hp', lt⟩ := h.inside hs hid
    cases hp.symm.trans hp'
    exact lt

/-- A scope that stands in another comes after it. -/
theorem lt_of_parent? (h : table.IsTree) {child : Nat} (hp : table.parent? child = some id) :
    id < child ∧ child < table.scopes.length := by
  obtain ⟨scope, hs, hp⟩ := Option.bind_eq_some_iff.1 hp
  exact ⟨h.parents hs hp, scope?_lt hs⟩

/-- A change that goes from scope to scope and keeps their places leaves a tree a tree. -/
theorem of_keeps (h : table.IsTree)
    (hk : ∀ id, ∃ f : Scope → Scope, table'.scope? id = (table.scope? id).map f ∧
      ∀ scope, Scope.Keeps scope (f scope)) :
    table'.IsTree := by
  -- Every scope of the new table has the place of an old one.
  have old {id : Nat} {scope' : Scope} (hs : table'.scope? id = some scope') :
      ∃ scope, table.scope? id = some scope ∧ scope.Keeps scope' := by
    obtain ⟨f, hf, keeps⟩ := hk id
    obtain ⟨scope, hold, rfl⟩ := Option.map_eq_some_iff.1 (hf.symm.trans hs)
    exact ⟨scope, hold, keeps scope⟩
  have parent (id : Nat) : table'.parent? id = table.parent? id := by
    obtain ⟨f, hf, keeps⟩ := hk id
    rw [parent?, parent?, hf]
    cases table.scope? id with
    | none => rfl
    | some scope => exact (keeps scope).parent
  refine ⟨fun hs => ?_, fun hs => ?_, ?_, fun hs hid => ?_, fun hs => ?_, fun hs => ?_⟩
  · obtain ⟨scope, hs, keeps⟩ := old hs
    rw [parent, keeps.children]
    exact h.listed hs
  · obtain ⟨scope, hs, keeps⟩ := old hs
    rw [keeps.id]
    exact h.numbered hs
  · obtain ⟨top, hr, hn⟩ := h.rooted
    obtain ⟨f, hf, keeps⟩ := hk root
    exact ⟨f top, by rw [hf, hr]; rfl, (keeps top).parent.trans hn⟩
  · obtain ⟨scope, hs, keeps⟩ := old hs
    rw [keeps.parent]
    exact h.inside hs hid
  · obtain ⟨scope, hs, keeps⟩ := old hs
    rw [keeps.children]
    exact h.ordered hs
  · obtain ⟨scope, hs, keeps⟩ := old hs
    exact keeps.named (h.named hs)

theorem modifyScope (h : table.IsTree) (id : Nat) {f : Scope → Scope}
    (hf : ∀ scope : Scope, scope.Keeps (f scope)) : (table.modifyScope id f).IsTree := by
  refine h.of_keeps fun other => ?_
  rw [scope?_modifyScope]
  split
  · exact ⟨f, rfl, hf⟩
  · exact ⟨fun scope => scope, by simp, .refl⟩

theorem classify (h : table.IsTree) (declarations : Declarations) :
    (table.classify declarations).IsTree := by
  refine h.of_keeps fun id => ⟨_, table.scope?_classify declarations id, fun scope => ?_⟩
  refine ⟨rfl, rfl, rfl, fun hn name symbol hs => ?_⟩
  rw [Scope.symbol?, SortedMap.get?_mapValues] at hs
  obtain ⟨old, hold, rfl⟩ := Option.map_eq_some_iff.1 hs
  have named : old.name = name := hn hold
  exact named

/-- The scope that is opened is listed where it stands, and nothing is listed in it. -/
theorem listed_pushScope (h : table.IsTree) {parent child : Nat}
    (hp : parent < table.scopes.length) {name : String} {kind : ScopeKind}
    (hs : (table.pushScope parent name kind).scope? id = some scope) :
    child ∈ scope.children ↔ (table.pushScope parent name kind).parent? child = some id := by
  rw [parent?_pushScope]
  rcases scope?_pushScope_cases hs with ⟨rfl, rfl⟩ | ⟨old, hold, rfl⟩
  · refine ⟨by simp, fun hc => ?_⟩
    split at hc
    · simp only [Option.some.injEq] at hc
      omega
    · have := h.lt_of_parent? hc
      omega
  · have listed : child ∈ old.children ↔ table.parent? child = some id := h.listed hold
    by_cases hn : child = table.scopes.length
    · have unlisted : child ∉ old.children := fun hc => by
        have := h.lt_of_parent? (listed.1 hc)
        omega
      rw [if_pos hn, Option.some.injEq]
      split
      · next hi => simp [Scope.addChild, hn, hi]
      · next hi => exact ⟨fun hc => absurd hc unlisted, fun hi' => absurd hi'.symm hi⟩
    · rw [if_neg hn, ← listed]
      split <;> simp [Scope.addChild, hn]

theorem pushScope (h : table.IsTree) {parent : Nat} (hp : parent < table.scopes.length)
    (name : String) (kind : ScopeKind) : (table.pushScope parent name kind).IsTree := by
  refine ⟨h.listed_pushScope hp, fun hs => ?_, ?_, fun hs hid => ?_, fun hs => ?_, fun hs => ?_⟩
  · obtain ⟨rfl, rfl⟩ | ⟨old, hold, rfl⟩ := scope?_pushScope_cases hs
    · rfl
    · have number : old.id = _ := h.numbered hold
      split <;> exact number
  · obtain ⟨top, hr, hn⟩ := h.rooted
    rw [scope?_pushScope_of_lt _ _ _ _ (scope?_lt hr), hr]
    split
    · exact ⟨_, rfl, hn⟩
    · exact ⟨_, rfl, hn⟩
  · obtain ⟨rfl, rfl⟩ | ⟨old, hold, rfl⟩ := scope?_pushScope_cases hs
    · exact ⟨parent, rfl, hp⟩
    · have parent : ∃ parent, old.parent = some parent ∧ _ := h.inside hold hid
      split <;> exact parent
  · obtain ⟨rfl, rfl⟩ | ⟨old, hold, rfl⟩ := scope?_pushScope_cases hs
    · exact .nil
    · split
      · -- The scopes that were listed have smaller numbers than the one that is opened.
        refine List.pairwise_append.2 ⟨h.ordered hold, List.pairwise_singleton .., ?_⟩
        intro child hc last hl
        rw [List.mem_singleton.1 hl]
        exact (h.lt_of_parent? ((h.listed hold).1 hc)).2
      · exact h.ordered hold
  · obtain ⟨rfl, rfl⟩ | ⟨old, hold, rfl⟩ := scope?_pushScope_cases hs
    · intro name symbol hn
      cases hn
    · have named : old.Named := h.named hold
      split <;> exact named

end IsTree

end SymbolTable

end SdkUsage
