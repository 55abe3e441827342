/-
What it changes to record the type of a name. The record is made in the local
scope, while a later question goes to the scope that the name belongs to where
the question is asked. So the two meet only if that scope is the one the record
was made in, and every other question has the answer it had before.
-/
import SdkUsage.Proofs.Inference.Run
import SdkUsage.Proofs.Scope.Environment

namespace SdkUsage

open SdkUsage.Inference

/-! ## Which scope a name belongs to -/

namespace SymbolTable

/-- A scope of the table has a name. -/
def Declares (table : SymbolTable) (id : Nat) (name : String) : Prop :=
  ∃ scope, table.scope? id = some scope ∧ ∃ symbol, scope.symbol? name = some symbol

/-- A namespace finds a name in a scope: in the local one if that binds the name or
has it from a function around it, and in the global one, if that has the name, when
the local scope has it as a global name. -/
inductive Owns (table : SymbolTable) (ns : Namespace) (name : String) : Nat → Prop where
  | here {scope : Scope} {symbol : Symbol} (found : table.scope? ns.scope = some scope)
      (has : scope.symbol? name = some symbol)
      (binding : symbol.binding = .local ∨ symbol.binding = .free) : Owns table ns name ns.scope
  | global {scope : Scope} {symbol : Symbol} (found : table.scope? ns.scope = some scope)
      (has : scope.symbol? name = some symbol)
      (binding : symbol.binding = .globalExplicit ∨ symbol.binding = .globalImplicit)
      (declared : table.Declares ns.global name) : Owns table ns name ns.global

end SymbolTable

theorem Symbol.isGlobal_iff {symbol : Symbol} :
    symbol.isGlobal = true ↔
      symbol.binding = .globalExplicit ∨ symbol.binding = .globalImplicit := by
  simp [Symbol.isGlobal]

theorem Symbol.not_isGlobal_iff {symbol : Symbol} :
    symbol.isGlobal = false ↔ symbol.binding = .local ∨ symbol.binding = .free := by
  unfold Symbol.isGlobal
  cases symbol.binding <;> decide

namespace Environment

variable {env env' : Environment} {ns : Namespace} {name : String} {type : Option Ty}

theorem declares_iff {id : Nat} :
    env.table.Declares id name ↔ ∃ symbol, env.symbol id name = .ok symbol := by
  constructor
  · rintro ⟨scope, found, symbol, has⟩
    exact ⟨symbol, symbol_ok.2 ⟨scope, found, has⟩⟩
  · rintro ⟨symbol, h⟩
    obtain ⟨scope, found, has⟩ := symbol_ok.1 h
    exact ⟨scope, found, symbol, has⟩

/-- The scope that is asked about a name is the one the name belongs to. -/
theorem owner_eq_some_iff {id : Nat} :
    env.owner ns name = .ok (some id) ↔ env.table.Owns ns name id := by
  rw [owner_ok]
  constructor
  · rintro ⟨symbol, h, hb⟩
    obtain ⟨scope, found, has⟩ := symbol_ok.1 h
    rcases hb with ⟨hb, hid⟩ | ⟨hb, global, foundGlobal, hid⟩
    · cases hid
      exact .here found has (Symbol.not_isGlobal_iff.1 hb)
    · obtain ⟨other, hasGlobal, rfl⟩ := Option.map_eq_some_iff.1 hid.symm
      exact .global found has (Symbol.isGlobal_iff.1 hb) ⟨global, foundGlobal, other, hasGlobal⟩
  · rintro (⟨found, has, hb⟩ | ⟨found, has, hb, global, foundGlobal, other, hasGlobal⟩)
    · exact ⟨_, symbol_ok.2 ⟨_, found, has⟩, .inl ⟨Symbol.not_isGlobal_iff.2 hb, rfl⟩⟩
    · refine ⟨_, symbol_ok.2 ⟨_, found, has⟩,
        .inr ⟨Symbol.isGlobal_iff.2 hb, global, foundGlobal, ?_⟩⟩
      rw [hasGlobal]
      rfl

/-! ## What a record changes -/

/-- A record of a type fails exactly if the local scope is missing or does not have
the name. -/
theorem setType_error_iff :
    (∃ error, env.setType ns name type = .error error) ↔
      env.table.scope? ns.scope = none ∨
        ∃ scope, env.table.scope? ns.scope = some scope ∧ scope.symbol? name = none := by
  have fails : (∃ error, env.setType ns name type = .error error) ↔
      ¬ env.table.Declares ns.scope name := by
    rw [declares_iff]
    cases hr : env.setType ns name type with
    | ok env' => simpa using (setType_ok.1 hr).1
    | error error =>
      refine iff_of_true ⟨error, rfl⟩ fun h => ?_
      rw [setType_ok.2 ⟨h, rfl⟩] at hr
      cases hr
  rw [fails, SymbolTable.Declares]
  cases env.table.scope? ns.scope with
  | none => simp
  | some scope => simp [Option.eq_none_iff_forall_ne_some]

/-- After a record, the types of names in the scope and under the name it was made
for are the recorded one. -/
theorem typeOf_setType_of_owns (hr : env.setType ns name type = .ok env') {ns' : Namespace}
    (ho : env.table.Owns ns' name ns.scope) : env'.typeOf ns' name = .ok type := by
  obtain ⟨-, rfl⟩ := setType_ok.1 hr
  refine typeOf_ok.2 ⟨some ns.scope, ?_, ?_⟩
  · rw [owner_congr (Action.onEnv_table env _), owner_eq_some_iff]
    exact ho
  · rw [Option.bind_some, Action.get?_bind, if_pos rfl]

/-- After a record, every question about a name that does not lead to the scope and
the name it was made for has the answer it had before. -/
theorem typeOf_setType_of_not_owns (hr : env.setType ns name type = .ok env')
    {ns' : Namespace} {name' : String}
    (ho : ¬ (name' = name ∧ env.table.Owns ns' name' ns.scope)) :
    env'.typeOf ns' name' = env.typeOf ns' name' := by
  obtain ⟨-, rfl⟩ := setType_ok.1 hr
  unfold typeOf
  rw [owner_congr (Action.onEnv_table env _)]
  cases hw : env.owner ns' name' with
  | error error => rfl
  | ok owner =>
    cases owner with
    | none => rfl
    | some id =>
      have other : (id, name') ≠ (ns.scope, name) := by
        rintro ⟨⟩
        exact ho ⟨rfl, owner_eq_some_iff.1 hw⟩
      simp only [ok_bind, Option.bind_some, Action.get?_bind, if_neg other]

/-- What a record of a type changes, in every environment over every table: it fails
exactly if the local scope is missing or lacks the name, and then the run that makes
it goes on with the state it had; else the answers that change are those about the
same name where it belongs to the local scope of the record, and they become the
recorded type. -/
theorem setType_changes (env : Environment) (ns : Namespace) (name : String)
    (type : Option Ty) :
    ((∃ error, env.setType ns name type = .error error) ↔
      env.table.scope? ns.scope = none ∨
        ∃ scope, env.table.scope? ns.scope = some scope ∧ scope.symbol? name = none) ∧
    (∀ error (s : State), env.setType ns name type = .error error → s.env = env →
      change (·.setType ns name type) s = .error (.scope error) s) ∧
    (∀ env', env.setType ns name type = .ok env' →
      env'.table = env.table ∧ env'.definitions = env.definitions ∧
      ∀ ns' name',
        (name' = name ∧ env.table.Owns ns' name' ns.scope → env'.typeOf ns' name' = .ok type) ∧
        (¬ (name' = name ∧ env.table.Owns ns' name' ns.scope) →
          env'.typeOf ns' name' = env.typeOf ns' name')) := by
  refine ⟨setType_error_iff, ?_, ?_⟩
  · rintro error s hr rfl
    simp only [change, get_bind, hr]
    rfl
  · intro env' hr
    obtain ⟨-, heq⟩ := setType_ok.1 hr
    refine ⟨by rw [heq, Action.onEnv_table], by rw [heq, Action.definitions_bind],
      fun ns' name' => ⟨?_, typeOf_setType_of_not_owns hr⟩⟩
    rintro ⟨rfl, ho⟩
    exact typeOf_setType_of_owns hr ho

/-- A module that binds `c`, and a function in it that has `c` as a global name. -/
def sharedName : Environment where
  table := ((SymbolTable.empty.pushScope SymbolTable.root "f" .function).modifyScope
    SymbolTable.root (·.putSymbol (.declared "c" .local))).modifyScope
      1 (·.putSymbol (.declared "c" .globalExplicit))

/-- What the module records about the shared name the function sees, and what the
function records about it the function itself does not see. -/
theorem sharedName_changes :
    (∃ env', sharedName.setType .module "c" (some .moduleHandle) = .ok env' ∧
      env'.typeOf ⟨1, SymbolTable.root⟩ "c" = .ok (some .moduleHandle)) ∧
    ∃ env', sharedName.setType ⟨1, SymbolTable.root⟩ "c" (some .moduleHandle) = .ok env' ∧
      env'.typeOf ⟨1, SymbolTable.root⟩ "c" = sharedName.typeOf ⟨1, SymbolTable.root⟩ "c" := by
  have owned {id : Nat} : sharedName.table.Owns ⟨1, SymbolTable.root⟩ "c" id ↔
      id = SymbolTable.root := by
    have owner : sharedName.owner ⟨1, SymbolTable.root⟩ "c" = .ok (some SymbolTable.root) := by
      decide
    rw [← owner_eq_some_iff, owner]
    simp [eq_comm]
  refine ⟨⟨_, rfl, ?_⟩, ⟨_, rfl, ?_⟩⟩
  · exact (((setType_changes sharedName .module "c" (some .moduleHandle)).2.2 _ rfl).2.2
      ⟨1, SymbolTable.root⟩ "c").1 ⟨rfl, owned.2 rfl⟩
  · refine (((setType_changes sharedName ⟨1, SymbolTable.root⟩ "c" (some .moduleHandle)).2.2
      _ rfl).2.2 ⟨1, SymbolTable.root⟩ "c").2 ?_
    rintro ⟨-, ho⟩
    cases owned.1 ho

end Environment

end SdkUsage
