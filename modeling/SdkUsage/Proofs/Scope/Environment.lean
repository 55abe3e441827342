/-
When a question about a name is answered, and how. The answers depend on the
table of scopes, on which scope the name belongs to there, and on what is known
under that scope and name.
-/
import SdkUsage.Scope.Environment

namespace SdkUsage.Environment

open SdkUsage.Tree

variable {env : Environment} {ns : Namespace} {name : String}

theorem ok_bind {ε α β : Type} {a : α} {f : α → Except ε β} : (.ok a >>= f) = f a := rfl

theorem scope_ok {id : Nat} {scope : Scope} :
    env.scope id = .ok scope ↔ env.table.scope? id = some scope := by
  unfold Environment.scope
  split
  · next found h => rw [h]; simp
  · next h => rw [h]; simp

theorem symbol_ok {id : Nat} {symbol : Symbol} :
    env.symbol id name = .ok symbol ↔
      ∃ scope, env.table.scope? id = some scope ∧ scope.symbol? name = some symbol := by
  unfold Environment.symbol
  cases hs : env.scope id with
  | error e =>
    constructor
    · rintro ⟨⟩
    · rintro ⟨scope, h, -⟩
      rw [scope_ok.2 h] at hs
      cases hs
  | ok scope =>
    have found := scope_ok.1 hs
    rw [ok_bind]
    constructor
    · intro h
      split at h
      · next hy =>
        cases h
        exact ⟨scope, found, hy⟩
      · cases h
    · rintro ⟨scope', h, hy⟩
      cases found.symm.trans h
      rw [hy]

/-- A name that the local scope has as a global one belongs to the global
scope, if that has it; any other name belongs to the local scope. -/
theorem owner_ok {owner : Option Nat} :
    env.owner ns name = .ok owner ↔
      ∃ symbol, env.symbol ns.scope name = .ok symbol ∧
        ((symbol.isGlobal = false ∧ owner = some ns.scope) ∨
          (symbol.isGlobal = true ∧ ∃ global, env.table.scope? ns.global = some global ∧
            owner = (global.symbol? name).map fun _ => ns.global)) := by
  unfold Environment.owner
  cases env.symbol ns.scope name with
  | error e =>
    constructor
    · rintro ⟨⟩
    · rintro ⟨_, ⟨⟩, _⟩
  | ok symbol =>
    show (if symbol.isGlobal then _ else _) = _ ↔ _
    cases hg : symbol.isGlobal with
    | false =>
      constructor
      · rintro ⟨⟩
        exact ⟨symbol, rfl, .inl ⟨hg, rfl⟩⟩
      · rintro ⟨_, ⟨⟩, h⟩
        rcases h with ⟨-, rfl⟩ | ⟨h, -⟩
        · rfl
        · rw [hg] at h
          cases h
    | true =>
      cases hs : env.scope ns.global with
      | error e =>
        constructor
        · rintro ⟨⟩
        · rintro ⟨_, ⟨⟩, h⟩
          rcases h with ⟨h, -⟩ | ⟨-, global, h, -⟩
          · rw [hg] at h
            cases h
          · rw [scope_ok.2 h] at hs
            cases hs
      | ok global =>
        have found := scope_ok.1 hs
        constructor
        · rintro ⟨⟩
          exact ⟨symbol, rfl, .inr ⟨hg, global, found, rfl⟩⟩
        · rintro ⟨_, ⟨⟩, h⟩
          rcases h with ⟨h, -⟩ | ⟨-, global', h, rfl⟩
          · rw [hg] at h
            cases h
          · cases found.symm.trans h
            rfl

/-- Whose name it is depends on the table only. -/
theorem owner_congr {env' : Environment} (h : env.table = env'.table) (ns : Namespace)
    (name : String) : env.owner ns name = env'.owner ns name := by
  unfold Environment.owner Environment.symbol Environment.scope
  rw [h]

/-- In the module every name belongs to the module's scope. -/
theorem owner_module {owner : Option Nat} (h : env.owner .module name = .ok owner) :
    owner = some SymbolTable.root := by
  obtain ⟨symbol, hs, ⟨-, rfl⟩ | ⟨-, global, hg, rfl⟩⟩ := owner_ok.1 h
  · rfl
  · -- The global scope is the local one, which has the name.
    obtain ⟨scope, found, hsymbol⟩ := symbol_ok.1 hs
    cases hg.symm.trans found
    rw [hsymbol]
    rfl

theorem typeOf_ok {type : Option Ty} :
    env.typeOf ns name = .ok type ↔
      ∃ owner, env.owner ns name = .ok owner ∧
        type = owner.bind fun id => env.types.get? (id, name) := by
  unfold Environment.typeOf
  cases env.owner ns name with
  | error e =>
    constructor
    · rintro ⟨⟩
    · rintro ⟨_, ⟨⟩, _⟩
  | ok owner =>
    constructor
    · rintro ⟨⟩
      exact ⟨owner, rfl, rfl⟩
    · rintro ⟨_, ⟨⟩, rfl⟩
      rfl

theorem definition_ok {d : Function} :
    env.definition ns name = .ok d ↔
      ∃ id, env.owner ns name = .ok (some id) ∧ env.definitions.get? (id, name) = some d := by
  unfold Environment.definition
  cases env.owner ns name with
  | error e =>
    constructor
    · rintro ⟨⟩
    · rintro ⟨_, ⟨⟩, _⟩
  | ok owner =>
    rw [ok_bind]
    constructor
    · intro h
      split at h
      · next hb =>
        cases h
        obtain ⟨id, rfl, hd⟩ := Option.bind_eq_some_iff.1 hb
        exact ⟨id, rfl, hd⟩
      · cases hs : env.scope ns.scope with
        | error e =>
          rw [hs] at h
          cases h
        | ok scope =>
          rw [hs] at h
          cases h
    · rintro ⟨id, ⟨⟩, hd⟩
      rw [Option.bind_some, hd]
      rfl

theorem definitionNamespace_ok {d : Function} {inner : Namespace} :
    env.definitionNamespace ns d = .ok inner ↔
      ∃ id scope, env.table.definitionScope? d.site.index = some id ∧
        env.table.scope? id = some scope ∧ inner = ⟨scope.id, scope.parent.getD ns.global⟩ := by
  unfold Environment.definitionNamespace
  constructor
  · intro h
    split at h
    · next scope hb =>
      cases h
      obtain ⟨id, hid, hs⟩ := Option.bind_eq_some_iff.1 hb
      exact ⟨id, scope, hid, hs, rfl⟩
    · cases hs : env.scope ns.scope with
      | error e =>
        rw [hs] at h
        cases h
      | ok scope =>
        rw [hs] at h
        cases h
  · rintro ⟨id, scope, hid, hs, rfl⟩
    rw [hid, Option.bind_some, hs]

end SdkUsage.Environment
