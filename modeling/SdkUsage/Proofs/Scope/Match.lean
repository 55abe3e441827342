/-
The scopes of a program in another one. The acts of both programs are run side by side, and the
scopes that are opened correspond: `place` says which scope of the whole a scope of the program
is. What was put into the whole in between opens scopes of its own and leaves all others alone
but the module's, which may get more names (`Matches.aside`).

So a scope other than the module's has the same names on both sides, classified alike
(`SymbolTable.build_matches`), and of a name of the module it is enough that it is there: the
module is searched last, whatever it knows.
-/
import SdkUsage.Proofs.Scope.Recast

namespace SdkUsage

open SdkUsage.Tree

/-! ## Scopes -/

/-- A scope of a program and one of another. A scope that is not the module's has the same names,
which agree as far as `view` can see. -/
structure Scope.Matches {α : Type} (c : Recast) (place : Nat → Nat) (view : Symbol → α)
    (scope scope' : Scope) : Prop where
  id : scope'.id = place scope.id
  kind : scope'.kind = scope.kind
  parent : scope'.parent = scope.parent.map place
  declared : ∀ name, (scope.symbol? name).isSome → (scope'.symbol? (c.name name)).isSome
  symbols : scope.id ≠ SymbolTable.root → ∀ name,
    (scope'.symbol? (c.name name)).map view = (scope.symbol? name).map view

/-- What a use does to the mark that a name is assigned. -/
theorem Symbol.assigned_noteUse (symbol : Symbol) (usage : Usage) :
    (symbol.noteUse usage).assigned = (symbol.assigned || usage ≠ .referenced) := by
  cases usage <;> simp [Symbol.noteUse]

namespace Scope.Matches

variable {c : Recast} {place : Nat → Nat} {scope scope' : Scope}

/-- A name is used on both sides. -/
theorem noteUse (h : scope.Matches c place Symbol.assigned scope') (hname : c.name.Injective)
    (name : String) (usage : Usage) : (scope.noteUse name usage).Matches c place Symbol.assigned
      (scope'.noteUse (c.name name) usage) where
  id := h.id
  kind := h.kind
  parent := h.parent
  declared := fun other ho => by
    rw [symbol?_noteUse_eq] at ho ⊢
    by_cases hn : other = name
    · rw [if_pos (congrArg c.name hn)]
      rfl
    · rw [if_neg (hname.ne hn)]
      rw [if_neg hn] at ho
      exact h.declared other ho
  symbols := fun hi other => by
    have same := h.symbols hi
    rw [symbol?_noteUse_eq, symbol?_noteUse_eq]
    by_cases hn : other = name
    · rw [if_pos (congrArg c.name hn), if_pos hn, Option.map_some, Option.map_some,
        Symbol.assigned_noteUse, Symbol.assigned_noteUse]
      have assigned : ((scope'.symbol? (c.name name)).getD (.fresh (c.name name))).assigned =
          ((scope.symbol? name).getD (.fresh name)).assigned := by
        have known := same name
        cases hs : scope.symbol? name with
        | none =>
          rw [hs, Option.map_none, Option.map_eq_none_iff] at known
          rw [known]
          rfl
        | some symbol =>
          rw [hs, Option.map_some] at known
          obtain ⟨symbol', hs', assigned⟩ := Option.map_eq_some_iff.1 known
          rw [hs']
          exact assigned
      rw [assigned]
    · rw [if_neg (hname.ne hn), if_neg hn]
      exact same other

/-- A scope is opened on both sides. -/
theorem opened (name name' : String) (kind : ScopeKind) {id id' parent parent' : Nat}
    (hid : id' = place id) (hparent : parent' = place parent) :
    (Scope.mk id name kind (some parent) ∅ []).Matches c place Symbol.assigned
      ⟨id', name', kind, some parent', ∅, []⟩ where
  id := hid
  kind := rfl
  parent := congrArg some hparent
  declared := fun _ h => by cases h
  symbols := fun _ _ => rfl

end Scope.Matches

/-! ## Running acts side by side -/

namespace ScopeBuilder

variable {builder builder' : ScopeBuilder}

/-- What is declared is declared in scopes of the table, and the first scope is the module's. -/
structure Tidy (builder : ScopeBuilder) : Prop extends builder.Sound where
  declared : ∀ {id name}, builder.table.scopes.length ≤ id →
    builder.declarations.get? (id, name) = none
  module : ∀ {scope}, builder.table.scope? SymbolTable.root = some scope → scope.kind = .module

theorem tidy_start : Tidy {} where
  toSound := sound_start
  declared := fun _ => rfl
  module := fun hs => by cases hs; rfl

/-- A scope of the table after an act: an old one, a scope that got a name or a scope inside it,
or one that was opened. -/
theorem scope?_run {act : Act} {id : Nat} {scope : Scope}
    (h : (builder.run act).table.scope? id = some scope) :
    builder.table.scope? id = some scope ∨
      (∃ old, builder.table.scope? id = some old ∧
        ((∃ name usage, act = .use name usage ∧ scope = old.noteUse name usage) ∨
          ∃ child, scope = old.addChild child)) ∨
      ∃ name kind parent, id = builder.table.scopes.length ∧ act = .enter name kind ∧
        scope = { id, name, kind, parent := some parent } := by
  cases act with
  | use name usage =>
    rw [run, SymbolTable.scope?_modifyScope] at h
    split at h
    · obtain ⟨old, hold, rfl⟩ := Option.map_eq_some_iff.1 h
      exact .inr (.inl ⟨old, hold, .inl ⟨name, usage, rfl, rfl⟩⟩)
    · exact .inl h
  | declare name binding => exact .inl h
  | enter name kind =>
    rcases SymbolTable.scope?_pushScope_cases h with ⟨rfl, rfl⟩ | ⟨old, hold, rfl⟩
    · exact .inr (.inr ⟨name, kind, _, rfl, rfl, rfl⟩)
    · split
      · exact .inr (.inl ⟨old, hold, .inr ⟨_, rfl⟩⟩)
      · exact .inl hold
  | leave mark =>
    cases mark with
    | none =>
      rw [run, close_table] at h
      exact .inl h
    | some d =>
      rw [run, close_table] at h
      exact .inl h

theorem Tidy.run (h : builder.Tidy) (act : Act) : (builder.run act).Tidy where
  toSound := h.toSound.run act
  declared := fun {id name} hi => by
    rw [length_run] at hi
    have old : builder.declarations.get? (id, name) = none := h.declared (by omega)
    cases act with
    | declare other binding =>
      rw [ScopeBuilder.run, SortedMap.get?_insert_other]
      · exact old
      · rintro ⟨⟩
        exact absurd h.current (by omega)
    | leave mark =>
      cases mark with
      | none =>
        rw [ScopeBuilder.run, close_declarations]
        exact old
      | some d =>
        rw [ScopeBuilder.run, close_declarations]
        exact old
    | use | enter => exact old
  module := fun {scope} hs => by
    rcases scope?_run hs with hs | ⟨old, hold, ⟨other, usage, rfl, rfl⟩ | ⟨child, rfl⟩⟩ |
      ⟨_, _, _, hi, -, -⟩
    · exact h.module hs
    · exact (h.module hold :)
    · exact (h.module hold :)
    · exact absurd h.current (by rw [← hi]; exact Nat.not_lt_zero _)

theorem Tidy.runAll (h : builder.Tidy) (acts : List Act) : (builder.runAll acts).Tidy := by
  induction acts generalizing builder with
  | nil => exact h
  | cons act acts ih => exact ih (h.run act)

/-- **Acts that close the scopes they open leave the other scopes alone,** but for the one they
begin in. -/
theorem runAll_other {acts : List Act} (hc : Closed acts) {id : Nat}
    (hi : id < builder.table.scopes.length) (hne : id ≠ builder.current) :
    (builder.runAll acts).table.scope? id = builder.table.scope? id ∧
      ∀ name, (builder.runAll acts).declarations.get? (id, name) =
        builder.declarations.get? (id, name) := by
  induction hc generalizing builder with
  | nil => exact ⟨rfl, fun _ => rfl⟩
  | @inside act hin =>
    cases act with
    | use name usage =>
      exact ⟨(SymbolTable.scope?_modifyScope ..).trans (if_neg hne), fun _ => rfl⟩
    | declare name binding =>
      refine ⟨rfl, fun other => SortedMap.get?_insert_other _ _ ?_⟩
      exact fun he => hne (Prod.mk.inj he).1
    | enter name kind => cases hin
    | leave mark => cases hin
  | @append as bs hca _ iha ihb =>
    rw [runAll_append]
    have first := iha hi hne
    have second := @ihb (builder.runAll as) (by rw [length_runAll]; omega)
      (by rwa [(runAll_closed hca builder).1])
    exact ⟨second.1.trans first.1, fun name => (second.2 name).trans (first.2 name)⟩
  | @scope name kind acts mark hc ih =>
    rw [runAll_cons, runAll_append]
    have inner := @ih (builder.run (.enter name kind)) (by rw [length_run]; omega) (Nat.ne_of_lt hi)
    have entered : (builder.run (.enter name kind)).table.scope? id = builder.table.scope? id :=
      (SymbolTable.scope?_pushScope_of_lt _ _ _ _ hi).trans (if_neg hne)
    generalize (builder.run (.enter name kind)).runAll acts = last at inner ⊢
    -- Closing a scope changes no scope and no declaration.
    have closed : (last.run (.leave mark)).table.scope? id = last.table.scope? id ∧
        (last.run (.leave mark)).declarations = last.declarations := by
      cases mark with
      | none => exact ⟨by rw [run, close_table], close_declarations _⟩
      | some d => exact ⟨by rw [run, close_table]; rfl, close_declarations _⟩
    refine ⟨closed.1.trans (inner.1.trans entered), fun other => ?_⟩
    exact (congrArg (·.get? (id, other)) closed.2).trans (inner.2 other)

/-- The scopes of a program and those of another, while their acts are run. The numbers are those
of the program's functions. -/
structure Matches (c : Recast) (place : Nat → Nat) (numbers : List Nat)
    (builder builder' : ScopeBuilder) : Prop where
  current : builder'.current = place builder.current
  outer : builder'.outer = builder.outer.map place
  scopes : ∀ {id scope}, builder.table.scope? id = some scope → ∃ scope',
    builder'.table.scope? (place id) = some scope' ∧ scope.Matches c place Symbol.assigned scope'
  declarations : ∀ {id}, id ≠ SymbolTable.root → id < builder.table.scopes.length → ∀ name,
    builder'.declarations.get? (place id, c.name name) = builder.declarations.get? (id, name)
  marks : ∀ i ∈ numbers, builder'.table.definitionScope? (c.stmts i) =
    (builder.table.definitionScope? i).map place

namespace Matches

variable {c : Recast} {place : Nat → Nat} {numbers : List Nat}

/-- The current scope is closed on both sides. -/
theorem close (h : Matches c place numbers builder builder') :
    Matches c place numbers builder.close builder'.close := by
  have outer := h.outer
  cases ho : builder.outer with
  | nil =>
    rw [ho, List.map_nil] at outer
    rw [ScopeBuilder.close, ScopeBuilder.close, ho, outer]
    exact h
  | cons id ids =>
    rw [ho, List.map_cons] at outer
    rw [ScopeBuilder.close, ScopeBuilder.close, ho, outer]
    exact ⟨rfl, rfl, h.scopes, h.declarations, h.marks⟩

/-- Nothing was done on either side. -/
theorem start (hroot : place SymbolTable.root = SymbolTable.root) :
    Matches c place numbers {} {} where
  current := hroot.symm
  outer := rfl
  scopes := fun {id scope} hs => by
    cases id with
    | zero =>
      cases hs
      exact ⟨SymbolTable.rootScope, congrArg (SymbolTable.scope? ∅) hroot, hroot.symm, rfl, rfl,
        fun _ h => h, fun _ _ => rfl⟩
    | succ id => cases hs
  declarations := fun _ _ _ => rfl
  marks := fun _ _ => rfl

section Step

variable (h : Matches c place numbers builder builder') (hname : c.name.Injective)
  (hplace : place.Injective)

include h hplace

/-- A name is used on both sides. -/
theorem use (hname : c.name.Injective) (name : String) (usage : Usage) :
    Matches c place numbers (builder.run (.use name usage))
      (builder'.run (.use (c.name name) usage)) where
  current := h.current
  outer := h.outer
  scopes := fun {id scope} hs => by
    simp only [ScopeBuilder.run, SymbolTable.scope?_modifyScope, h.current] at hs ⊢
    by_cases hi : id = builder.current
    · rw [if_pos hi] at hs
      rw [if_pos (congrArg place hi)]
      obtain ⟨old, hold, rfl⟩ := Option.map_eq_some_iff.1 hs
      obtain ⟨scope', hs', hm⟩ := h.scopes hold
      exact ⟨_, by rw [hs']; rfl, hm.noteUse hname name usage⟩
    · rw [if_neg hi] at hs
      rw [if_neg (hplace.ne hi)]
      exact h.scopes hs
  declarations := fun hi hlt =>
    h.declarations hi (by simpa [ScopeBuilder.run, SymbolTable.modifyScope] using hlt)
  marks := h.marks

/-- A name is declared on both sides. -/
theorem declare (hname : c.name.Injective) (name : String) (binding : Binding) :
    Matches c place numbers (builder.run (.declare name binding))
      (builder'.run (.declare (c.name name) binding)) where
  current := h.current
  outer := h.outer
  scopes := h.scopes
  declarations := fun {id} hi hlt other => by
    simp only [ScopeBuilder.run, SortedMap.get?_insert, h.current]
    by_cases hk : (id, other) = (builder.current, name)
    · cases hk
      rw [if_pos rfl, if_pos rfl]
    · have other : (place id, c.name other) ≠ (place builder.current, c.name name) := by
        intro he
        obtain ⟨hid, ho⟩ := Prod.mk.inj he
        exact hk (Prod.ext (hplace hid) (hname ho))
      rw [if_neg hk, if_neg other]
      exact h.declarations hi hlt _
  marks := h.marks

/-- A scope is opened on both sides. -/
theorem enter (hb : builder.Tidy) (hb' : builder'.Tidy)
    (hsize : place builder.table.scopes.length = builder'.table.scopes.length)
    (name name' : String) (kind : ScopeKind) :
    Matches c place numbers (builder.run (.enter name kind))
      (builder'.run (.enter name' kind)) where
  current := hsize.symm
  outer := by simp only [ScopeBuilder.run, h.outer, h.current, List.map_cons]
  scopes := fun {id scope} hs => by
    rcases SymbolTable.scope?_pushScope_cases hs with ⟨rfl, rfl⟩ | ⟨old, hold, rfl⟩
    · rw [hsize]
      exact ⟨_, SymbolTable.scope?_pushScope .., .opened _ _ _ hsize.symm h.current⟩
    · obtain ⟨scope', hs', hm⟩ := h.scopes hold
      simp only [ScopeBuilder.run, h.current,
        SymbolTable.scope?_pushScope_of_lt _ _ _ _ (SymbolTable.scope?_lt hs'), hs', hplace.eq_iff]
      split
      · exact ⟨_, rfl, hm.id, hm.kind, hm.parent, hm.declared, hm.symbols⟩
      · exact ⟨_, rfl, hm⟩
  declarations := fun {id} hi hlt other => by
    rw [length_run] at hlt
    by_cases hl : id < builder.table.scopes.length
    · exact h.declarations hi hl other
    · obtain rfl : id = builder.table.scopes.length := by
        simp [opened, Act.opens] at hlt
        omega
      rw [hsize]
      exact (hb'.declared (Nat.le_refl _)).trans (hb.declared (Nat.le_refl _)).symm
  marks := h.marks

omit hplace in
/-- The current scope is closed on both sides, and is that of a function. -/
theorem leave {i : Nat} (hi : i ∈ numbers)
    (hstmts : ∀ i ∈ numbers, ∀ j ∈ numbers, c.stmts i = c.stmts j → i = j) :
    Matches c place numbers (builder.run (.leave (some i)))
      (builder'.run (.leave (some (c.stmts i)))) := by
  refine close ⟨h.current, h.outer, h.scopes, h.declarations, fun j hj => ?_⟩
  simp only [assign, SymbolTable.definitionScope?, SortedMap.get?_insert, h.current]
  by_cases hji : j = i
  · rw [if_pos hji, if_pos (congrArg c.stmts hji)]
    rfl
  · rw [if_neg hji, if_neg fun he => hji (hstmts j hj i hi he)]
    exact h.marks j hj

end Step

variable (hname : c.name.Injective) (hplace : place.Injective)
  (hstmts : ∀ i ∈ numbers, ∀ j ∈ numbers, c.stmts i = c.stmts j → i = j)

include hname hplace hstmts

/-- **An act on both sides.** -/
theorem run (h : Matches c place numbers builder builder') (hb : builder.Tidy) (hb' : builder'.Tidy)
    {act : Act} (hm : ∀ i ∈ SdkUsage.marks [act], i ∈ numbers)
    (hsize : act.opens = true → place builder.table.scopes.length = builder'.table.scopes.length) :
    Matches c place numbers (builder.run act) (builder'.run (act.recast c)) := by
  cases act with
  | use name usage => exact h.use hplace hname name usage
  | declare name binding => exact h.declare hplace hname name binding
  | enter name kind =>
    cases kind <;> exact h.enter hplace hb hb' (hsize rfl) _ _ _
  | leave mark =>
    cases mark with
    | none => exact h.close
    | some i => exact h.leave (hm i (by simp)) hstmts

/-- **Acts on both sides.** Scopes are opened where `place` says. -/
theorem runAll {acts : List Act} (h : Matches c place numbers builder builder') (hb : builder.Tidy)
    (hb' : builder'.Tidy) (hm : ∀ i ∈ SdkUsage.marks acts, i ∈ numbers)
    (hsize : ∀ j < opened acts,
      place (builder.table.scopes.length + j) = builder'.table.scopes.length + j) :
    Matches c place numbers (builder.runAll acts) (builder'.runAll (acts.map (Act.recast c))) := by
  induction acts generalizing builder builder' with
  | nil => exact h
  | cons act acts ih =>
    rw [opened_cons] at hsize
    obtain ⟨first, rest⟩ : (∀ i ∈ SdkUsage.marks [act], i ∈ numbers) ∧
        ∀ i ∈ SdkUsage.marks acts, i ∈ numbers := by
      rw [← List.singleton_append, marks_append] at hm
      exact List.forall_mem_append.1 hm
    have step := h.run hname hplace hstmts hb hb' first fun ho => by
      have one : opened [act] = 1 := by simp [opened, ho]
      exact hsize 0 (by omega)
    refine ih step (hb.run act) (hb'.run (act.recast c)) rest fun j hj => ?_
    have recast : opened [act.recast c] = opened [act] := by
      cases act with
      | enter name kind => cases kind <;> rfl
      | _ => rfl
    rw [length_run, length_run, recast, Nat.add_assoc, Nat.add_assoc]
    exact hsize _ (by omega)

omit hname hstmts in
/-- **Acts on one side,** in the module, that open and close scopes of their own. -/
theorem aside {acts : List Act} (h : Matches c place numbers builder builder')
    (hb : builder.Tidy) (hb' : builder'.Tidy) (hc : Closed acts)
    (hmodule : builder'.current = SymbolTable.root)
    (hroot : place SymbolTable.root = SymbolTable.root)
    (hm : ∀ i ∈ numbers, c.stmts i ∉ SdkUsage.marks acts) :
    Matches c place numbers builder (builder'.runAll acts) where
  current := (runAll_closed hc builder').1.trans h.current
  outer := (runAll_closed hc builder').2.trans h.outer
  scopes := fun {id scope} hs => by
    obtain ⟨scope', hs', hm⟩ := h.scopes hs
    by_cases hi : id = SymbolTable.root
    · subst hi
      rw [hroot] at hs' ⊢
      obtain ⟨new, hnew, kept⟩ := (builder'.runAll_extends acts).scope hs'
      have kind : new.kind = scope'.kind :=
        ((hb'.runAll acts).module hnew).trans (hb'.module hs').symm
      refine ⟨new, hnew, kept.id.trans hm.id, kind.trans hm.kind, kept.parent.trans hm.parent,
        fun name hn => kept.symbols _ (hm.declared name hn), fun hid => ?_⟩
      exact absurd (hb.tree.numbered hs) hid
    · have other : place id ≠ builder'.current := by
        rw [hmodule, ← hroot]
        exact hplace.ne hi
      rw [(runAll_other hc (SymbolTable.scope?_lt hs') other).1]
      exact ⟨scope', hs', hm⟩
  declarations := fun {id} hi hlt name => by
    obtain ⟨scope, hs⟩ := SymbolTable.exists_scope hlt
    obtain ⟨scope', hs', -⟩ := h.scopes hs
    have other : place id ≠ builder'.current := by
      rw [hmodule, ← hroot]
      exact hplace.ne hi
    exact ((runAll_other hc (SymbolTable.scope?_lt hs') other).2 _).trans
      (h.declarations hi hlt name)
  marks := fun i hi => (definitionScope?_runAll (hm i hi) builder').trans (h.marks i hi)

end Matches

end ScopeBuilder

/-! ## Where names are bound -/

section Classify

open ScopeBuilder

variable {c : Recast} {place : Nat → Nat} {numbers : List Nat} {builder builder' : ScopeBuilder}

/-- Scopes that match and declare the same names, if they are no modules. -/
structure Scope.Agrees (c : Recast) (place : Nat → Nat) (declarations declarations' : Declarations)
    (scope scope' : Scope) : Prop extends scope.Matches c place Symbol.assigned scope' where
  inner : scope.kind ≠ .module → scope.id ≠ SymbolTable.root
  declarations : scope.id ≠ SymbolTable.root → ∀ name,
    declarations'.get? (scope'.id, c.name name) = declarations.get? (scope.id, name)

theorem ScopeBuilder.Matches.agrees (h : Matches c place numbers builder builder')
    (hb : builder.Tidy) {id : Nat} {scope : Scope} (hs : builder.table.scope? id = some scope) :
    ∃ scope', builder'.table.scope? (place id) = some scope' ∧
      scope.Agrees c place builder.declarations builder'.declarations scope' := by
  obtain ⟨scope', hs', hm⟩ := h.scopes hs
  have number := hb.tree.numbered hs
  refine ⟨scope', hs', hm, fun hk hi => ?_, fun hi name => ?_⟩
  · rw [number] at hi
    exact hk (hb.module (hi ▸ hs))
  · rw [hm.id]
    exact h.declarations hi (number ▸ SymbolTable.scope?_lt hs) name

/-- The scopes around a scope match those around its counterpart. -/
theorem ScopeBuilder.Matches.enclosing (h : Matches c place numbers builder builder')
    (hb : builder.Tidy) (hb' : builder'.Tidy) {id : Nat} {scope : Scope}
    (hs : builder.table.scope? id = some scope) :
    List.Forall₂ (Scope.Agrees c place builder.declarations builder'.declarations)
      (builder.table.enclosing id) (builder'.table.enclosing (place id)) := by
  obtain ⟨scope', hs', hm⟩ := h.scopes hs
  have parent := hm.parent
  rw [SymbolTable.enclosing, SymbolTable.enclosing, hs, hs', Option.bind_some, Option.bind_some,
    parent]
  cases hp : scope.parent with
  | none => exact .nil
  | some around =>
    have lt := hb.tree.parents hs hp
    obtain ⟨outer, ho⟩ := SymbolTable.exists_scope (Nat.lt_trans lt (SymbolTable.scope?_lt hs))
    obtain ⟨outer', ho', agrees⟩ := h.agrees hb ho
    have lt' : place around < place id := hb'.tree.parents hs' (by rw [parent, hp]; rfl)
    simp only [Option.map_some, dif_pos lt, dif_pos lt', ho, ho', Option.toList_some,
      List.singleton_append]
    exact .cons agrees (h.enclosing hb hb' ho)
termination_by id

theorem boundAround_agrees {declarations declarations' : Declarations} {outer outer' : List Scope}
    (h : List.Forall₂ (Scope.Agrees c place declarations declarations') outer outer')
    (name : String) :
    boundAround declarations' (c.name name) outer' = boundAround declarations name outer := by
  induction h with
  | nil => rfl
  | @cons scope scope' outer outer' hs _ ih =>
    rw [boundAround, boundAround, hs.kind, ih]
    by_cases hk : scope.kind = .module
    · rw [hk]
    · have inner := hs.inner hk
      have assigned : (scope'.symbol? (c.name name)).any (·.assigned) =
          (scope.symbol? name).any (·.assigned) := by
        have same := congrArg (Option.any id) (hs.symbols inner name)
        rwa [Option.any_map, Option.any_map] at same
      rw [hs.declarations inner, assigned]

/-- Names that are assigned alike in scopes that match are bound alike. -/
theorem Symbol.classify_agrees {declarations declarations' : Declarations} {scope scope' : Scope}
    (hs : scope.Agrees c place declarations declarations' scope') (hi : scope.id ≠ SymbolTable.root)
    {outer outer' : List Scope}
    (ho : List.Forall₂ (Scope.Agrees c place declarations declarations') outer outer')
    {symbol symbol' : Symbol} (hname : symbol'.name = c.name symbol.name)
    (ha : symbol'.assigned = symbol.assigned) :
    symbol'.classify declarations' scope' outer' = symbol.classify declarations scope outer := by
  rw [Symbol.classify, Symbol.classify, hname, ha, hs.kind, hs.declarations hi,
    boundAround_agrees ho]

/-- Two tables of scopes: every scope of the one is in the other at its place, with its names
bound alike, and functions have their scopes there. -/
structure SymbolTable.Matches (c : Recast) (place : Nat → Nat) (table table' : SymbolTable) :
    Prop where
  scopes : ∀ {id scope}, table.scope? id = some scope → ∃ scope',
    table'.scope? (place id) = some scope' ∧ scope.Matches c place Symbol.binding scope'
  marks : ∀ {i id}, table.definitionScope? i = some id →
    table'.definitionScope? (c.stmts i) = some (place id)
  numbered : ∀ {id scope}, table.scope? id = some scope → scope.id = id

/-- **Names of scopes that match are classified alike.** -/
theorem ScopeBuilder.Matches.classify (h : Matches c place numbers builder builder')
    (hb : builder.Tidy) (hb' : builder'.Tidy)
    (hm : ∀ {i id}, builder.table.definitionScope? i = some id → i ∈ numbers) :
    (builder.table.classify builder.declarations).Matches c place
      (builder'.table.classify builder'.declarations) where
  scopes := fun {id scope} hs => by
    rw [SymbolTable.scope?_classify] at hs
    obtain ⟨old, hold, rfl⟩ := Option.map_eq_some_iff.1 hs
    obtain ⟨old', hold', agrees⟩ := h.agrees hb hold
    have outer := h.enclosing hb hb' hold
    rw [← hb.tree.numbered hold, ← agrees.id] at outer
    have known (scope : Scope) (declarations : Declarations) (outer : List Scope) (name : String) :
        (scope.classified declarations outer).symbol? name = (scope.symbol? name).map fun symbol =>
          { symbol with binding := symbol.classify declarations scope outer } :=
      SortedMap.get?_mapValues ..
    refine ⟨old'.classified builder'.declarations (builder'.table.enclosing old'.id), ?_,
      agrees.id, agrees.kind, agrees.parent, fun name hn => ?_, fun hi name => ?_⟩
    · rw [SymbolTable.scope?_classify, hold']
      rfl
    · rw [known, Option.isSome_map]
      refine agrees.declared name ?_
      have hn : ((old.classified _ _).symbol? name).isSome := hn
      rwa [known, Option.isSome_map] at hn
    · change _ = ((old.classified _ _).symbol? name).map _
      rw [known, known, Option.map_map, Option.map_map]
      have same := agrees.symbols hi name
      cases hn : old.symbol? name with
      | none =>
        rw [hn, Option.map_none, Option.map_eq_none_iff] at same
        rw [same]
        rfl
      | some symbol =>
        rw [hn, Option.map_some] at same
        obtain ⟨symbol', hn', assigned⟩ := Option.map_eq_some_iff.1 same
        rw [hn']
        refine congrArg some (Symbol.classify_agrees agrees hi outer ?_ assigned)
        rw [hb'.tree.named hold' hn', hb.tree.named hold hn]
  marks := fun {i id} hi =>
    (h.marks i (hm hi)).trans (congrArg (Option.map place) (show _ = some id from hi))
  numbered := (hb.tree.classify _).numbered

end Classify

/-! ## The scopes of a program in another -/

theorem marks_recast (c : Recast) (acts : List Act) :
    marks (acts.map (Act.recast c)) = (marks acts).map c.stmts := by
  rw [marks, marks, List.filterMap_map, List.map_filterMap]
  refine List.filterMap_congr fun act _ => ?_
  cases act with
  | enter name kind => cases kind <;> rfl
  | _ => rfl

theorem opened_recast (c : Recast) (acts : List Act) :
    opened (acts.map (Act.recast c)) = opened acts := by
  rw [opened, opened, List.countP_map]
  refine List.countP_congr fun act _ => ?_
  cases act with
  | enter name kind => cases kind <;> rfl
  | _ => rfl

/-- Numbers that leave out some from a first one on. -/
def passing (first count id : Nat) : Nat := if id < first then id else id + count

theorem passing_injective (first count : Nat) : (passing first count).Injective := by
  intro i j h
  unfold passing at h
  split at h <;> split at h <;> omega

/-- **The scopes of a program in another.** -/
theorem SymbolTable.build_matches {c : Recast} {extra : List Stmt} {module whole : Module}
    (h : module.Embeds c extra whole) (hw : whole.Numbered) (hname : c.name.Injective) :
    ∃ place : Nat → Nat, place.Injective ∧ place root = root ∧
      (build module).Matches c place (build whole) := by
  obtain ⟨before, after, hbody, hwhole⟩ := h
  have append (as bs : List Stmt) : actsOf (as ++ bs) = actsOf as ++ actsOf bs := by
    rw [actsOf, stmtNodes, List.map_append, List.flatMap_append]
    rfl
  have acts : module.acts = actsOf before ++ actsOf after := by
    rw [← append, ← hbody]
    rfl
  have acts' : whole.acts = (actsOf before).map (Act.recast c) ++
      (actsOf extra ++ (actsOf after).map (Act.recast c)) := by
    rw [← actsOf_recast, ← actsOf_recast, ← append, ← append, ← hwhole]
    rfl
  -- The functions of the whole are closed once each, so those of the program are.
  have nodup := Module.marks_nodup hw
  rw [acts', marks_append, marks_append, marks_recast, marks_recast] at nodup
  have apart : ((marks module.acts).map c.stmts ++ marks (actsOf extra)).Nodup := by
    rw [acts, marks_append, List.map_append, List.append_assoc]
    exact (List.perm_append_comm.append_left _).nodup_iff.1 nodup
  have distinct := (List.nodup_append.1 apart).1
  have inj : ∀ i ∈ marks module.acts, ∀ j ∈ marks module.acts, c.stmts i = c.stmts j → i = j :=
    fun i hi j hj he => List.inj_on_of_nodup_map distinct hi hj he
  have other : ∀ i ∈ marks module.acts, c.stmts i ∉ marks (actsOf extra) := fun i hi he =>
    (List.nodup_append.1 apart).2.2 _ (List.mem_map_of_mem hi) _ he rfl
  let place := passing (1 + opened (actsOf before)) (opened (actsOf extra))
  have hplace : place.Injective := passing_injective _ _
  have hroot : place root = root := if_pos (by rw [root]; omega)
  let numbers := marks module.acts
  have hbefore : ∀ i ∈ marks (actsOf before), i ∈ numbers := fun i hi => by
    simp only [numbers, acts, marks_append, List.mem_append, hi, true_or]
  have hafter : ∀ i ∈ marks (actsOf after), i ∈ numbers := fun i hi => by
    simp only [numbers, acts, marks_append, List.mem_append, hi, or_true]
  -- What comes before, what was put in, and what comes after.
  have nothing : ScopeBuilder.Matches c place numbers {} {} := .start hroot
  have first := nothing.runAll hname hplace inj ScopeBuilder.tidy_start ScopeBuilder.tidy_start
    hbefore fun j hj => if_pos (by change 1 + j < _; omega)
  have closed : Closed ((actsOf before).map (Act.recast c)) := by
    rw [← actsOf_recast]
    exact closed_actsOf _
  have tidy := ScopeBuilder.tidy_start.runAll (actsOf before)
  have tidy' := ScopeBuilder.tidy_start.runAll ((actsOf before).map (Act.recast c))
  have middle := first.aside hplace tidy tidy' (closed_actsOf extra)
    (ScopeBuilder.runAll_closed closed {}).1 hroot other
  have last := middle.runAll hname hplace inj tidy (tidy'.runAll (actsOf extra)) hafter
    fun j _ => by
      simp only [ScopeBuilder.length_runAll, opened_recast, place, passing]
      rw [if_neg (by change ¬1 + _ + j < _; omega)]
      omega
  have known : ∀ {i id}, (ScopeBuilder.runAll {} module.acts).table.definitionScope? i = some id →
      i ∈ numbers := fun {i id} hi => by
    by_contra hn
    rw [ScopeBuilder.definitionScope?_runAll hn] at hi
    cases hi
  refine ⟨place, hplace, hroot, ?_⟩
  simp only [← ScopeBuilder.runAll_append, ← acts, List.append_assoc, ← acts'] at last
  exact last.classify (ScopeBuilder.tidy_start.runAll _) (ScopeBuilder.tidy_start.runAll _) known

/-! ## Questions about names -/

/-- A namespace of the one program in the other. -/
def Namespace.moved (place : Nat → Nat) (ns : Namespace) : Namespace :=
  ⟨place ns.scope, place ns.global⟩

namespace Environment

variable {c : Recast} {place : Nat → Nat} {env env' : Environment} {ns : Namespace} {name : String}
  (h : env.table.Matches c place env'.table)

include h

/-- A name that a scope has is one of its counterpart. -/
theorem symbol_matches {id : Nat} {symbol : Symbol} (hs : env.symbol id name = .ok symbol) :
    ∃ symbol', env'.symbol (place id) (c.name name) = .ok symbol' := by
  obtain ⟨scope, found, hn⟩ := symbol_ok.1 hs
  obtain ⟨scope', found', hm⟩ := h.scopes found
  obtain ⟨symbol', hn'⟩ := Option.isSome_iff_exists.1 (hm.declared name (by rw [hn]; rfl))
  exact ⟨symbol', symbol_ok.2 ⟨scope', found', hn'⟩⟩

omit h in
theorem owner_of_global {symbol : Symbol} (hs : env.symbol ns.scope name = .ok symbol)
    {global : Scope} (hg : env.table.scope? ns.global = some global) : env.owner ns name =
      .ok (if symbol.isGlobal then (global.symbol? name).map fun _ => ns.global
        else some ns.scope) := by
  refine owner_ok.2 ⟨symbol, hs, ?_⟩
  cases hi : symbol.isGlobal with
  | false => exact .inl ⟨rfl, rfl⟩
  | true => exact .inr ⟨rfl, global, hg, rfl⟩

/-- **What is known about a name of the one program is what is known about it in the other,** if
as much is known of the names of each scope. It does not matter that the other module may have
names of its own, as nothing is known about them. -/
theorem owner_matches {symbol : Symbol} (hs : env.symbol ns.scope name = .ok symbol)
    (hmodule : ns.scope = SymbolTable.root → ns.global = SymbolTable.root) {global : Scope}
    (hg : env.table.scope? ns.global = some global) {α β : Type} {f : α → β}
    {known : SortedMap (Nat × String) α} {known' : SortedMap (Nat × String) β}
    (hk : ∀ {id scope}, env.table.scope? id = some scope →
      known'.get? (place id, c.name name) = (known.get? (id, name)).map f)
    (hd : ∀ {id value}, known.get? (id, name) = some value → (env.table.symbol? id name).isSome) :
    ∃ owner owner', env.owner ns name = .ok owner ∧
      env'.owner (ns.moved place) (c.name name) = .ok owner' ∧
      (owner'.bind fun id => known'.get? (id, c.name name)) =
        (owner.bind fun id => known.get? (id, name)).map f := by
  obtain ⟨symbol', hs'⟩ := symbol_matches h hs
  obtain ⟨scope, found, hn⟩ := symbol_ok.1 hs
  obtain ⟨scope', found', hm⟩ := h.scopes found
  obtain ⟨global', hg', hgm⟩ := h.scopes hg
  obtain ⟨_, same, hn'⟩ := symbol_ok.1 hs'
  cases found'.symm.trans same
  have owner := owner_of_global hs hg
  have owner' := @owner_of_global env' (ns.moved place) _ _ hs' _ hg'
  refine ⟨_, _, owner, owner', ?_⟩
  have here := hk found
  by_cases hr : ns.scope = SymbolTable.root
  · -- In the module the name is one of the module, whether it counts as global or not.
    have top : ns.global = ns.scope := (hmodule hr).trans hr.symm
    rw [top] at hg hg'
    cases hg.symm.trans found
    cases hg'.symm.trans found'
    have first : (if symbol.isGlobal then (global.symbol? name).map fun _ => ns.global
        else some ns.scope) = some ns.scope := by
      rw [hn, top]
      split <;> rfl
    have second : (if symbol'.isGlobal then
        (scope'.symbol? (c.name name)).map fun _ => (ns.moved place).global
        else some (ns.moved place).scope) = some (place ns.scope) := by
      rw [hn', Namespace.moved, top]
      split <;> rfl
    rw [first, second]
    exact here
  · have bound : symbol'.binding = symbol.binding := by
      have same := hm.symbols (by rwa [h.numbered found]) name
      rw [hn, hn'] at same
      exact Option.some.inj same
    have isGlobal : symbol'.isGlobal = symbol.isGlobal := by rw [Symbol.isGlobal, bound]; rfl
    rw [isGlobal]
    cases symbol.isGlobal with
    | false => exact here
    | true =>
      rw [if_pos rfl, if_pos rfl]
      cases hgn : global.symbol? name with
      | some found =>
        obtain ⟨_, hgn'⟩ := Option.isSome_iff_exists.1 (hgm.declared name (by rw [hgn]; rfl))
        rw [hgn']
        exact hk hg
      | none =>
        -- The module of the other program may have the name.
        have unknown : known.get? (ns.global, name) = none := by
          refine Option.eq_none_iff_forall_ne_some.2 fun value hv => ?_
          have declared := hd hv
          rw [SymbolTable.symbol?, hg] at declared
          exact absurd declared (by simp [hgn])
        have silent := hk hg
        rw [unknown, Option.map_none] at silent
        cases global'.symbol? (c.name name) with
        | none => rfl
        | some _ => exact silent

/-- The namespace of a function is that of its counterpart. -/
theorem definitionNamespace_matches {d : Function} {inner : Namespace}
    (hd : env.definitionNamespace ns d = .ok inner) :
    env'.definitionNamespace (ns.moved place) (d.recast c) = .ok (inner.moved place) := by
  obtain ⟨id, scope, hid, found, rfl⟩ := definitionNamespace_ok.1 hd
  obtain ⟨scope', found', hm⟩ := h.scopes found
  have index : (d.recast c).site.index = c.stmts d.site.index := by cases d; rfl
  refine definitionNamespace_ok.2 ⟨place id, scope', by rw [index]; exact h.marks hid, found', ?_⟩
  rw [hm.id, hm.parent, Namespace.moved]
  cases scope.parent <;> rfl

end Environment

end SdkUsage
