/-
What the symbol table of a module has. Acts only add to a table, so that a name
that is used while a scope is current is a name of that scope in the end
(`declared_of_use`), and the scope of a function is the one that was current
when the function was marked.

Together with the order of acts this gives `build_module` and `build_function`:
the names within the statements of a module are names of its scope, and every
function has a scope of its own with its parameters and the names of its body.
-/
import SdkUsage.Proofs.Scope.Owner
import SdkUsage.Proofs.Scope.Tree

namespace SdkUsage

open SdkUsage.Tree

variable {name : String} {acts after : List Act} {usage : Usage}

/-! ## Tables that have what others have -/

/-- A scope that has kept the names of another. -/
structure Scope.Extends (old new : Scope) : Prop where
  id : new.id = old.id
  parent : new.parent = old.parent
  symbols : ∀ name, (old.symbol? name).isSome → (new.symbol? name).isSome

theorem Scope.Extends.refl (scope : Scope) : scope.Extends scope := ⟨rfl, rfl, fun _ h => h⟩

theorem Scope.Extends.trans {a b c : Scope} (hab : a.Extends b) (hbc : b.Extends c) :
    a.Extends c :=
  ⟨hbc.id.trans hab.id, hbc.parent.trans hab.parent, fun name h =>
    hbc.symbols name (hab.symbols name h)⟩

theorem Scope.extends_addChild (scope : Scope) (child : Nat) :
    scope.Extends (scope.addChild child) := ⟨rfl, rfl, fun _ h => h⟩

theorem Scope.symbol?_noteUse (scope : Scope) (name : String) (usage : Usage) :
    ((scope.noteUse name usage).symbol? name).isSome := by
  simp [Scope.noteUse, Scope.symbol?]

theorem Scope.extends_noteUse (scope : Scope) (name : String) (usage : Usage) :
    scope.Extends (scope.noteUse name usage) := by
  refine ⟨rfl, rfl, fun other h => ?_⟩
  by_cases ho : other = name
  · subst ho
    exact scope.symbol?_noteUse other usage
  · rw [Scope.noteUse, Scope.symbol?, SortedMap.get?_insert_other _ _ ho]
    exact h

namespace SymbolTable

/-- A table that has kept the scopes of another and their names. -/
structure Extends (old new : SymbolTable) : Prop where
  scope : ∀ {id scope}, old.scope? id = some scope →
    ∃ scope', new.scope? id = some scope' ∧ scope.Extends scope'

theorem Extends.refl (table : SymbolTable) : table.Extends table :=
  ⟨fun {_ scope} h => ⟨scope, h, .refl scope⟩⟩

theorem Extends.trans {a b c : SymbolTable} (hab : a.Extends b) (hbc : b.Extends c) :
    a.Extends c := by
  refine ⟨fun {id scope} h => ?_⟩
  obtain ⟨scope', h', e⟩ := hab.scope h
  obtain ⟨scope'', h'', e'⟩ := hbc.scope h'
  exact ⟨scope'', h'', e.trans e'⟩

theorem extends_modifyScope (table : SymbolTable) (id : Nat) {f : Scope → Scope}
    (hf : ∀ scope : Scope, scope.Extends (f scope)) : table.Extends (table.modifyScope id f) := by
  refine ⟨fun {other scope} h => ?_⟩
  rw [scope?_modifyScope, h]
  split
  · exact ⟨f scope, rfl, hf scope⟩
  · exact ⟨scope, rfl, .refl scope⟩

theorem extends_pushScope (table : SymbolTable) (parent : Nat) (name : String) (kind : ScopeKind) :
    table.Extends (table.pushScope parent name kind) := by
  refine ⟨fun {id scope} h => ?_⟩
  rw [scope?_pushScope_of_lt _ _ _ _ (scope?_lt h), h]
  split
  · exact ⟨_, rfl, scope.extends_addChild _⟩
  · exact ⟨scope, rfl, .refl scope⟩

end SymbolTable

/-! ## Running acts -/

/-- How many scopes acts open. -/
def opened (acts : List Act) : Nat := acts.countP Act.opens

theorem opened_append (as bs : List Act) : opened (as ++ bs) = opened as + opened bs :=
  List.countP_append

theorem opened_cons (act : Act) (acts : List Act) :
    opened (act :: acts) = opened [act] + opened acts :=
  opened_append [act] acts

namespace ScopeBuilder

variable {builder : ScopeBuilder}

theorem close_table (builder : ScopeBuilder) : builder.close.table = builder.table := by
  unfold close
  split <;> rfl

theorem close_declarations (builder : ScopeBuilder) :
    builder.close.declarations = builder.declarations := by
  unfold close
  split <;> rfl

/-- An act only adds to the table. -/
theorem run_extends (builder : ScopeBuilder) (act : Act) :
    builder.table.Extends (builder.run act).table := by
  cases act with
  | use name usage =>
    exact builder.table.extends_modifyScope _ fun scope => scope.extends_noteUse name usage
  | declare name binding => exact .refl _
  | enter name kind => exact builder.table.extends_pushScope _ name kind
  | leave mark =>
    cases mark with
    | none =>
      rw [run, close_table]
      exact .refl _
    | some d =>
      rw [run, close_table]
      exact ⟨fun {_ scope} h => ⟨scope, h, .refl scope⟩⟩

theorem runAll_append (builder : ScopeBuilder) (as bs : List Act) :
    builder.runAll (as ++ bs) = (builder.runAll as).runAll bs := List.foldl_append

theorem runAll_cons (builder : ScopeBuilder) (act : Act) (acts : List Act) :
    builder.runAll (act :: acts) = (builder.run act).runAll acts := rfl

theorem length_run (builder : ScopeBuilder) (act : Act) :
    (builder.run act).table.scopes.length = builder.table.scopes.length + opened [act] := by
  cases act with
  | use name usage => simp [run, SymbolTable.modifyScope, opened, Act.opens]
  | declare name binding => rfl
  | enter name kind => simp [run, SymbolTable.pushScope, opened, Act.opens]
  | leave mark => cases mark <;> simp [run, close_table, assign, opened, Act.opens]

theorem length_runAll (builder : ScopeBuilder) (acts : List Act) :
    (builder.runAll acts).table.scopes.length = builder.table.scopes.length + opened acts := by
  induction acts generalizing builder with
  | nil => rfl
  | cons act acts ih => rw [runAll_cons, ih, length_run, opened_cons act acts, Nat.add_assoc]

theorem runAll_extends (builder : ScopeBuilder) (acts : List Act) :
    builder.table.Extends (builder.runAll acts).table := by
  induction acts generalizing builder with
  | nil => exact .refl _
  | cons act acts ih => exact (builder.run_extends act).trans (ih _)

/-- The table is a tree, and the scopes that are open are in it. -/
structure Sound (builder : ScopeBuilder) : Prop where
  tree : builder.table.IsTree
  current : builder.current < builder.table.scopes.length
  outer : ∀ id ∈ builder.outer, id < builder.table.scopes.length

theorem sound_start : Sound {} :=
  ⟨SymbolTable.isTree_empty, Nat.zero_lt_one, by rintro _ ⟨⟩⟩

theorem Sound.close (h : builder.Sound) : builder.close.Sound := by
  unfold ScopeBuilder.close
  split
  · exact h
  · next scope outer ho =>
    exact ⟨h.tree, h.outer scope (by simp [ho]), fun id hid => h.outer id (by simp [ho, hid])⟩

theorem Sound.run (h : builder.Sound) (act : Act) : (builder.run act).Sound := by
  cases act with
  | use name usage =>
    refine ⟨h.tree.modifyScope _ fun scope => scope.keeps_noteUse name usage, ?_, ?_⟩
    · simpa [ScopeBuilder.run, SymbolTable.modifyScope] using h.current
    · simpa [ScopeBuilder.run, SymbolTable.modifyScope] using h.outer
  | declare name binding => exact ⟨h.tree, h.current, h.outer⟩
  | enter name kind =>
    refine ⟨h.tree.pushScope h.current name kind, ?_, fun id hid => ?_⟩
    · simp [ScopeBuilder.run, SymbolTable.pushScope]
    · simp only [ScopeBuilder.run, SymbolTable.pushScope, List.length_append, List.length_modify,
        List.length_singleton]
      rcases List.mem_cons.1 hid with rfl | hid
      · exact Nat.lt_succ_of_lt h.current
      · exact Nat.lt_succ_of_lt (h.outer id hid)
  | leave mark =>
    cases mark with
    | none => exact h.close
    | some d =>
      have tree : (builder.assign d).table.IsTree := ⟨h.tree.listed, h.tree.numbered, h.tree.rooted,
        h.tree.inside, h.tree.ordered, h.tree.named⟩
      have assigned : (builder.assign d).Sound := ⟨tree, h.current, h.outer⟩
      exact assigned.close

theorem Sound.runAll (h : builder.Sound) (acts : List Act) : (builder.runAll acts).Sound := by
  induction acts generalizing builder with
  | nil => exact h
  | cons act acts ih => exact ih (h.run act)

/-- **Acts that close the scopes they open end in the scope they began in.** -/
theorem runAll_closed (h : Closed acts) (builder : ScopeBuilder) :
    (builder.runAll acts).current = builder.current ∧
      (builder.runAll acts).outer = builder.outer := by
  induction h generalizing builder with
  | nil => exact ⟨rfl, rfl⟩
  | @inside act hi =>
    cases act with
    | use name usage => exact ⟨rfl, rfl⟩
    | declare name binding => exact ⟨rfl, rfl⟩
    | enter name kind => cases hi
    | leave mark => cases hi
  | append _ _ iha ihb =>
    rw [runAll_append, (ihb _).1, (ihb _).2]
    exact iha builder
  | @scope name kind acts mark _ ih =>
    rw [runAll_cons, runAll_append]
    have opened := ih (builder.run (.enter name kind))
    generalize (builder.run (.enter name kind)).runAll acts = inner at opened ⊢
    have outer : inner.outer = builder.current :: builder.outer := opened.2
    cases mark <;> simp [runAll, run, close, assign, outer]

/-- What is marked stays marked unless it is marked again. -/
theorem definitionScope?_runAll {i : Nat} (h : i ∉ marks acts) (builder : ScopeBuilder) :
    (builder.runAll acts).table.definitionScope? i = builder.table.definitionScope? i := by
  induction acts generalizing builder with
  | nil => rfl
  | cons act acts ih =>
    obtain ⟨first, rest⟩ : i ∉ marks [act] ∧ i ∉ marks acts := by
      rw [← List.singleton_append, marks_append, List.mem_append, not_or] at h
      exact h
    rw [runAll_cons, ih rest]
    cases act with
    | use name usage => rfl
    | declare name binding => rfl
    | enter name kind => rfl
    | leave mark =>
      cases mark with
      | none => rw [run, close_table]
      | some d =>
        rw [run, close_table]
        have other : i ≠ d := fun e => first (by simp [e])
        exact SortedMap.get?_insert_other _ _ other

/-- A name is a name of the scope in which it is used. -/
theorem declared_of_use {before : List Act} (hb : builder.Sound)
    (ha : acts = before ++ .use name usage :: after) (hc : Closed before) :
    ∃ scope, (builder.runAll acts).table.scope? builder.current = some scope ∧
      (scope.symbol? name).isSome := by
  rw [ha, runAll_append, runAll_cons]
  have sound := hb.runAll before
  have here := (runAll_closed hc builder).1
  generalize builder.runAll before = middle at sound here ⊢
  obtain ⟨scope, found⟩ := SymbolTable.exists_scope sound.current
  have used : (middle.run (.use name usage)).table.scope? middle.current
      = some (scope.noteUse name usage) := by
    rw [run, SymbolTable.scope?_modifyScope, if_pos rfl, found]
    rfl
  obtain ⟨scope', found', kept⟩ := ((middle.run (.use name usage)).runAll_extends after).scope used
  exact ⟨scope', here ▸ found', kept.symbols name (scope.symbol?_noteUse name usage)⟩

/-- A scope that is opened and closed with a mark is the one of the mark, and
has the names that are used in it. -/
theorem runAll_scope {inner : List Act} {kind : ScopeKind} {i : Nat} (hb : builder.Sound)
    (ha : acts = .enter name kind :: (inner ++ .leave (some i) :: after)) (hc : Closed inner)
    (hi : i ∉ marks after) :
    (builder.runAll acts).table.definitionScope? i = some builder.table.scopes.length ∧
      ∃ scope, (builder.runAll acts).table.scope? builder.table.scopes.length = some scope ∧
        scope.parent = some builder.current ∧
        ∀ name usage before rest, inner = before ++ .use name usage :: rest → Closed before →
          (scope.symbol? name).isSome := by
  have opened := builder.table.scope?_pushScope builder.current name kind
  have sound := hb.run (.enter name kind)
  have current : (builder.run (.enter name kind)).current = builder.table.scopes.length := rfl
  change (builder.run (.enter name kind)).table.scope? _ = _ at opened
  rw [ha, runAll_cons, runAll_append, runAll_cons]
  generalize builder.run (.enter name kind) = first at opened sound current ⊢
  have closing := ((first.runAll inner).run_extends (.leave (some i))).trans
    (((first.runAll inner).run (.leave (some i))).runAll_extends after)
  refine ⟨?_, ?_⟩
  · rw [definitionScope?_runAll hi, run, close_table, ← current, ← (runAll_closed hc first).1]
    exact SortedMap.get?_insert_self ..
  · obtain ⟨scope, found, kept⟩ := ((first.runAll_extends inner).trans closing).scope opened
    refine ⟨scope, found, kept.parent, fun name usage before rest hin hbefore => ?_⟩
    obtain ⟨used, hused, hsome⟩ := declared_of_use sound hin hbefore
    obtain ⟨scope', found', kept'⟩ := closing.scope hused
    rw [current] at found'
    cases found.symm.trans found'
    exact kept'.symbols name hsome

end ScopeBuilder

/-! ## Names -/

namespace Tree

/-- The names that a node itself uses in the scope it stands in. It is not
known what a star brings. -/
inductive Node.Names : Node → String → Prop
  | name {site id} : Names (.expr (.name site id)) id
  | imported {site names a} : a ∈ names → a.name ≠ "*" →
    Names (.stmt (.importModules site names)) a.boundName
  | importedFrom {site path level names a} : a ∈ names → a.name ≠ "*" →
    Names (.stmt (.importFrom site path level names)) a.boundName
  | function {d} : Names (.stmt (.functionDef d)) d.name.text
  | classDef {d} : Names (.stmt (.classDef d)) d.name.text
  | handler {site body handlers orelse finalbody h id} : h ∈ handlers → h.name = some id →
    Names (.stmt (.tryBlock site body handlers orelse finalbody)) id.text
  | global {site names id} : id ∈ names → Names (.stmt (.globals site names)) id.text
  | nonlocal {site names id} : id ∈ names → Names (.stmt (.nonlocals site names)) id.text

/-- A use among steps without scopes comes when all scopes are closed. -/
theorem use_split_of_level {steps : List Step} (hl : Level steps) (hu : .use usage name ∈ steps) :
    ∃ before after, steps.flatMap stepActs = before ++ .use name usage :: after ∧
      Closed before := by
  obtain ⟨as, bs, rfl⟩ := List.append_of_mem hu
  refine ⟨as.flatMap stepActs, bs.flatMap stepActs, by simp [Step.use, stepActs], ?_⟩
  exact closed_of_level (level_append.1 hl).1 fun role' n _ => n.acts_closed role'

theorem Node.use_split {node : Node} {role : Role} {steps rest : List Step}
    (hs : node.steps role = steps ++ rest) (hl : Level steps) (hu : .use usage name ∈ steps) :
    ∃ before after, node.acts role = before ++ .use name usage :: after ∧ Closed before := by
  obtain ⟨before, after, hacts, closed⟩ := use_split_of_level hl hu
  refine ⟨before, after ++ rest.flatMap stepActs, ?_, closed⟩
  rw [Node.acts_eq, hs, List.flatMap_append, hacts, List.append_assoc, List.cons_append]

theorem Node.Names.split {node : Node} (h : node.Names name) (role : Role) :
    ∃ usage before after, node.acts role = before ++ .use name usage :: after ∧
      Closed before := by
  -- Where a node opens no scope, all its steps are without scopes.
  have whole : ∀ {usage}, node.opensScope = false → .use usage name ∈ node.steps role →
      ∃ usage before after, node.acts role = before ++ .use name usage :: after ∧ Closed before :=
    fun ho hu => ⟨_, use_split (List.append_nil _).symm (node.level_steps ho role) hu⟩
  cases h with
  | @name site id =>
    cases role with
    | read => exact ⟨.referenced, [], [], by rw [Node.acts_eq]; rfl, .nil⟩
    | bind => exact ⟨.assigned, [], [], by rw [Node.acts_eq]; rfl, .nil⟩
  | @imported site names a ha hs =>
    have hu : .use .assigned a.boundName ∈ importSteps names :=
      List.mem_map.2 ⟨a, by simp [ha, hs], rfl⟩
    exact whole rfl (by cases role <;> exact hu)
  | @importedFrom site path level names a ha hs =>
    have hu : .use .assigned a.boundName ∈ importSteps names :=
      List.mem_map.2 ⟨a, by simp [ha, hs], rfl⟩
    exact whole rfl (by cases role <;> exact hu)
  | @function d =>
    have hs : (Node.stmt (.functionDef d)).steps role = d.steps := by cases role <;> rfl
    exact ⟨.assigned, use_split (hs.trans d.scoped.steps) d.scoped.outer (by simp)⟩
  | @classDef d =>
    have hs : (Node.stmt (.classDef d)).steps role = d.steps := by cases role <;> rfl
    exact ⟨.assigned, use_split (hs.trans d.scoped.steps) d.scoped.outer (by simp)⟩
  | @handler site body handlers orelse finalbody h id hh hn =>
    have hu : .use .assigned id.text ∈ h.steps := by simp [Handler.steps, hn]
    have hu' : .use .assigned id.text ∈ handlers.flatMap Handler.steps :=
      List.mem_flatMap.2 ⟨h, hh, hu⟩
    have hsteps := List.mem_append_left ((orelse ++ finalbody).map Step.stmt)
      (List.mem_append_right (body.map Step.stmt) hu')
    exact whole rfl (by cases role <;> exact hsteps)
  | @global site names id hi =>
    have hu : .use .referenced id.text ∈ declareSteps .globalExplicit names :=
      List.mem_flatMap.2 ⟨id, hi, by simp⟩
    exact whole rfl (by cases role <;> exact hu)
  | @nonlocal site names id hi =>
    have hu : .use .referenced id.text ∈ declareSteps .free names :=
      List.mem_flatMap.2 ⟨id, hi, by simp⟩
    exact whole rfl (by cases role <;> exact hu)

theorem Within.use_split {stmts : List Stmt} {n : Node} (h : Within stmts n) (hn : n.Names name) :
    ∃ usage before after, actsOf stmts = before ++ .use name usage :: after ∧ Closed before := by
  obtain ⟨role, before, after, hacts, closed⟩ := h.acts_split
  obtain ⟨usage, before', after', hnode, closed'⟩ := hn.split role
  refine ⟨usage, before ++ before', after' ++ after, ?_, closed.append closed'⟩
  rw [hacts, hnode]
  simp only [List.append_assoc, List.cons_append]

end Tree

/-! ## The table of a module -/

namespace SymbolTable

/-- Classifying names keeps them. -/
theorem extends_classify (table : SymbolTable) (declarations : Declarations) :
    table.Extends (table.classify declarations) := by
  refine ⟨fun {id scope} h => ?_⟩
  rw [scope?_classify, h]
  refine ⟨_, rfl, rfl, rfl, fun name hs => ?_⟩
  obtain ⟨symbol, hs⟩ := Option.isSome_iff_exists.1 hs
  rw [Scope.symbol?] at hs
  rw [Scope.symbol?, SortedMap.get?_mapValues, hs]
  rfl

variable {module : Module}

/-- What a builder has while the acts of a module are run is in its table. -/
theorem build_extends {before : List Act} (h : module.acts = before ++ after) :
    (ScopeBuilder.runAll {} before).table.Extends (build module) := by
  refine Extends.trans ?_ (extends_classify _ _)
  rw [h, ScopeBuilder.runAll_append]
  exact ScopeBuilder.runAll_extends _ after

/-- **The table of a module is a tree.** -/
theorem isTree_build (module : Module) : (build module).IsTree :=
  (ScopeBuilder.sound_start.runAll module.acts).tree.classify _

/-- **The names within the statements of a module are names of its scope.** -/
theorem build_module (module : Module) :
    ∃ scope, (build module).scope? root = some scope ∧ scope.id = root ∧
      ∀ n name, Within module.body n → n.Names name → (scope.symbol? name).isSome := by
  have start : (∅ : SymbolTable).scope? root = some rootScope := rfl
  obtain ⟨scope, found, kept⟩ := (build_extends (List.nil_append module.acts).symm).scope start
  refine ⟨scope, found, kept.id, fun n name hn hname => ?_⟩
  obtain ⟨usage, before, after, hacts, closed⟩ := hn.use_split hname
  obtain ⟨used, hused, hsome⟩ :=
    ScopeBuilder.declared_of_use ScopeBuilder.sound_start hacts closed
  obtain ⟨scope', found', kept'⟩ := (build_extends (List.append_nil module.acts).symm).scope hused
  cases found.symm.trans found'
  exact kept'.symbols name hsome

/-- The scope of a function: it is marked with the function, has a number of its
own, stands in a scope of the table, and has the parameters and the names within
the body. -/
structure FunctionScope (table : SymbolTable) (definition : Function) (scope : Scope) : Prop where
  marked : table.definitionScope? definition.site.index = some scope.id
  found : table.scope? scope.id = some scope
  inner : scope.id ≠ root
  parent : ∃ parent outer, scope.parent = some parent ∧ table.scope? parent = some outer
  params : ∀ param ∈ definition.params.all, (scope.symbol? param.name.text).isSome
  names : ∀ n name, Within definition.body n → n.Names name → (scope.symbol? name).isSome

/-- **Every function of a module has a scope.** -/
theorem build_function (hm : module.Numbered) {d : Function}
    (hd : .stmt (.functionDef d) ∈ module.nodes) :
    ∃ scope, FunctionScope (build module) d scope := by
  obtain ⟨role, before, after, hacts⟩ := Module.acts_split hd
  obtain ⟨outer, -, hd⟩ := d.acts_eq role
  have hsplit : module.acts = (before ++ outer) ++ .enter d.name.text .function ::
      (d.innerActs ++ .leave (some d.site.index) :: after) := by
    rw [hacts, hd]
    simp only [List.append_assoc, List.cons_append, List.nil_append]
  have sound := ScopeBuilder.sound_start.runAll (before ++ outer)
  obtain ⟨marked, scope, found, parent, names⟩ :=
    ScopeBuilder.runAll_scope sound rfl d.closed_innerActs (Module.marks_once hm hsplit)
  rw [← ScopeBuilder.runAll_append, ← hsplit] at marked found
  obtain ⟨scope', found', kept⟩ := (build_extends (List.append_nil module.acts).symm).scope found
  have number := kept.id.trans ((ScopeBuilder.sound_start.runAll module.acts).tree.numbered found)
  have used : ∀ name usage before rest, d.innerActs = before ++ .use name usage :: rest →
      Closed before → (scope'.symbol? name).isSome :=
    fun name usage before rest hin hb => kept.symbols name (names name usage before rest hin hb)
  refine ⟨scope', number ▸ marked, number ▸ found', ?_, ?_, fun param hp => ?_,
    fun n name hn hname => ?_⟩
  · rw [number]
    exact Nat.ne_zero_of_lt sound.current
  · obtain ⟨_, around⟩ := exists_scope sound.current
    obtain ⟨outer, around', -⟩ := (build_extends hsplit).scope around
    exact ⟨_, outer, kept.parent.trans parent, around'⟩
  · have hu : Step.use .parameter param.name.text ∈ d.params.uses :=
      List.mem_map.2 ⟨param, hp, rfl⟩
    obtain ⟨before, after, hin, hb⟩ := use_split_of_level d.params.level_uses hu
    refine used _ .parameter before (after ++ actsOf d.body) ?_ hb
    rw [FunctionDef.innerActs, hin, List.append_assoc, List.cons_append]
  · -- The body comes after the parameters, which open no scope.
    obtain ⟨usage, before, after, hbody, hb⟩ := hn.use_split hname
    refine used name usage (d.params.uses.flatMap stepActs ++ before) after ?_
      (d.closed_params.append hb)
    rw [FunctionDef.innerActs, hbody, List.append_assoc]

end SymbolTable

end SdkUsage
