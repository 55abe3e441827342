/-
The tree of scopes mirrors the definitions of a program. Every function and class has a scope
of its own with its name, in the scope of the innermost function or class around it; functions
are found by their number, and also by their name where that is unique (`Mirrors`).

The scope of a definition is the one opened by the act that the definition owns.
-/
import SdkUsage.Proofs.Grammar.Statement
import SdkUsage.Proofs.Scope.Environment
import SdkUsage.Proofs.Scope.Nesting
import SdkUsage.Proofs.Scope.Shape

namespace SdkUsage

open SdkUsage.Tree

namespace Tree

/-! ## Definitions -/

/-- A function or a class: the number of its statement, its name, the kind of its scope and its
body. -/
structure Definition where
  number : Nat
  name : String
  kind : ScopeKind
  body : List Stmt

/-- The function or class that a statement defines. -/
def Stmt.definition? : Stmt → Option Definition
  | .functionDef d => some ⟨d.site.index, d.name.text, .function, d.body⟩
  | .classDef d => some ⟨d.site.index, d.name.text, .classBody, d.body⟩
  | _ => none

/-- A definition stands in statements, in none of the functions and classes in them. -/
def Definition.StandsIn (definition : Definition) (stmts : List Stmt) : Prop :=
  ∃ t, Within stmts (.stmt t) ∧ t.definition? = some definition

/-- A definition is part of a module, at any depth. -/
def Module.Defines (module : Module) (definition : Definition) : Prop :=
  ∃ t, .stmt t ∈ module.nodes ∧ t.definition? = some definition

/-- The innermost definition whose body holds a definition, or the module. -/
inductive Module.Around (module : Module) (d : Definition) : Option Definition → Prop
  | outermost : d.StandsIn module.body → Around module d none
  | inside {e} : module.Defines e → d.StandsIn e.body → Around module d (some e)

variable {t : Stmt} {d e : Definition} {module : Module}

theorem Stmt.index_of_definition (h : t.definition? = some d) : t.index = d.number := by
  unfold definition? at h
  split at h <;> cases h <;> rfl

/-- A definition does some things around it and then opens its scope for its body, in which
there may be something before the statements. -/
theorem Stmt.scoped_of_definition (h : t.definition? = some d) :
    ∃ mark outer front, Node.Scoped t.steps mark outer d.name d.kind (front ++ d.body.map .stmt) := by
  unfold definition? at h
  split at h <;> cases h
  · next f => exact ⟨_, _, _, f.scoped⟩
  · next c => exact ⟨_, _, [], c.scoped⟩

theorem Stmt.owned_of_definition (h : t.definition? = some d) (role : Role) :
    ∃ outer front after, (Node.stmt t).ownedActs role = outer ++
        ⟨.stmt t, .enter d.name d.kind⟩ :: (front ++ ownedActsOf d.body ++ after) ∧
      Closed (outer.map OwnedAct.act) ∧ Closed (front.map OwnedAct.act) := by
  obtain ⟨mark, outer, front, hs⟩ := Stmt.scoped_of_definition h
  have steps : (Node.stmt t).steps role = t.steps := by cases role <;> rfl
  refine ⟨outer.flatMap (stepOwned (.stmt t)), front.flatMap (stepOwned (.stmt t)),
    [⟨.stmt t, .leave mark⟩], ?_, closed_map_act hs.outer,
    closed_map_act (level_append.1 hs.inner).1⟩
  rw [Node.ownedActs_eq, steps, hs.owned_eq, List.flatMap_append,
    ← ownedActsOf_eq d.body (.stmt t), List.append_assoc]

theorem FunctionDef.owned_eq (f : Function) (role : Role) :
    ∃ outer inner, (Node.stmt (.functionDef f)).ownedActs role = outer ++
        ⟨.stmt (.functionDef f), .enter f.name.text .function⟩ ::
          (inner ++ [⟨.stmt (.functionDef f), .leave (some f.site.index)⟩]) ∧
      inner.map OwnedAct.act = f.innerActs := by
  have steps : (Node.stmt (.functionDef f)).steps role = f.steps := by cases role <;> rfl
  have owned := f.scoped.owned_eq (.stmt (.functionDef f))
  rw [← steps, ← Node.ownedActs_eq] at owned
  refine ⟨_, _, owned, ?_⟩
  rw [map_act_flatMap fun role n _ => n.map_ownedActs role, FunctionDef.innerActs,
    List.flatMap_append, actsOf_eq]

/-- What opens a scope is a definition, or else a lambda. -/
theorem Node.definition_of_enter {n : Node} {role : Role} {name : String} {kind : ScopeKind}
    (h : .act (.enter name kind) ∈ n.steps role) :
    kind = .lambda ∨ ∃ t d, n = .stmt t ∧ t.definition? = some d ∧ d.name = name ∧ d.kind = kind := by
  cases ho : n.opensScope with
  | false => cases n.level_steps ho role _ h
  | true =>
    have only {steps outer inner : List Step} {mark : Option Nat} {name' : String}
        {kind' : ScopeKind} (hs : Node.Scoped steps mark outer name' kind' inner)
        (hm : .act (.enter name kind) ∈ steps) : name' = name ∧ kind' = kind := by
      rw [hs.steps] at hm
      simp only [List.mem_append, List.mem_cons, List.not_mem_nil, or_false] at hm
      rcases hm with hm | hm | hm | hm
      · cases hs.outer _ hm
      · cases hm
        exact ⟨rfl, rfl⟩
      · cases hs.inner _ hm
      · cases hm
    unfold Node.opensScope at ho
    split at ho
    · next site params body =>
      have hs := Expr.scoped_lambda site params body
      refine .inl (only hs ?_).2.symm
      cases role <;> exact h
    · next f => exact .inr ⟨_, _, rfl, rfl, only f.scoped (by cases role <;> exact h)⟩
    · next c => exact .inr ⟨_, _, rfl, rfl, only c.scoped (by cases role <;> exact h)⟩
    · cases ho

/-- A statement below a node that is within statements is within them too, or within the body of
a definition below the node. -/
theorem Within.stmt_cases {stmts : List Stmt} {whole : Node} (hw : Within stmts whole)
    (ht : .stmt t ∈ whole.preorder) :
    Within stmts (.stmt t) ∨
      ∃ s e, .stmt s ∈ whole.preorder ∧ s.definition? = some e ∧ Within e.body (.stmt t) := by
  rcases Node.mem_preorder_cases ht with rfl | ⟨child, hc, hn⟩
  · exact .inl hw
  · -- Below the statements of a body the search goes on, with that body around.
    have inBody (s : Stmt) (e : Definition) (hs : whole = .stmt s) (he : s.definition? = some e)
        (hchild : child ∈ stmtNodes e.body) : Within stmts (.stmt t) ∨
        ∃ s e, .stmt s ∈ whole.preorder ∧ s.definition? = some e ∧ Within e.body (.stmt t) := by
      obtain ⟨u, hu, rfl⟩ := mem_stmtNodes.1 hchild
      rcases (Within.stmt hu).stmt_cases hn with within | ⟨s', e', hs', he', within⟩
      · exact .inr ⟨s, e, hs ▸ Node.mem_preorder_self whole, he, within⟩
      · exact .inr ⟨s', e', Node.mem_preorder_of_mem_children hc hs', he', within⟩
    have noExpr {es : List Expr} (hchild : child ∈ exprNodes es) : False := by
      obtain ⟨x, -, rfl⟩ := mem_exprNodes.1 hchild
      obtain ⟨y, hy⟩ := Node.exists_expr_of_mem_preorder hn
      cases hy
    cases ho : whole.opensScope with
    | false =>
      rcases (hw.part ho (Node.mem_children.1 hc)).stmt_cases hn with within | ⟨s, e, hs, he, within⟩
      · exact .inl within
      · exact .inr ⟨s, e, Node.mem_preorder_of_mem_children hc hs, he, within⟩
    | true =>
      unfold Node.opensScope at ho
      split at ho
      · exact (noExpr hc).elim
      · next f =>
        rcases List.mem_append.1 hc with hc' | hc'
        · exact (noExpr hc').elim
        · exact inBody _ _ rfl rfl hc'
      · next c =>
        rcases List.mem_append.1 hc with hc' | hc'
        · exact (noExpr hc').elim
        · exact inBody _ _ rfl rfl hc'
      · cases ho
termination_by whole.rank
decreasing_by all_goals exact Node.rank_lt_of_mem_children hc

/-- **Every definition has one around it, or the module.** -/
theorem Module.exists_around (hd : module.Defines d) : ∃ around, module.Around d around := by
  obtain ⟨t, ht, hd⟩ := hd
  obtain ⟨m, hm, hn⟩ := List.mem_flatMap.1 ht
  obtain ⟨u, hu, rfl⟩ := mem_stmtNodes.1 hm
  rcases (Within.stmt hu).stmt_cases hn with within | ⟨s, e, hs, he, within⟩
  · exact ⟨none, .outermost ⟨t, within, hd⟩⟩
  · exact ⟨some e, .inside ⟨s, List.mem_flatMap.2 ⟨_, hm, hs⟩, he⟩ ⟨t, within, hd⟩⟩

/-! ## Where definitions open their scopes -/

/-- A definition of a module opens a scope. -/
theorem Module.Defines.opening (hd : module.Defines d) :
    ∃ t before after, t.definition? = some d ∧ module.ownedActs =
      before ++ ⟨.stmt t, .enter d.name d.kind⟩ :: after := by
  obtain ⟨t, ht, hd⟩ := hd
  obtain ⟨role, before, after, hacts⟩ := Module.owned_split ht
  obtain ⟨outer, front, rest, howned, -, -⟩ := Stmt.owned_of_definition hd role
  refine ⟨t, before ++ outer, (front ++ ownedActsOf d.body ++ rest) ++ after, hd, ?_⟩
  rw [hacts, howned]
  simp only [List.append_assoc, List.cons_append]

/-- A definition in statements opens its scope when all scopes opened in them are closed. -/
theorem Definition.StandsIn.opening {stmts : List Stmt} (hd : d.StandsIn stmts) :
    ∃ t before after, t.definition? = some d ∧ ownedActsOf stmts =
        before ++ ⟨.stmt t, .enter d.name d.kind⟩ :: after ∧
      Closed (before.map OwnedAct.act) := by
  obtain ⟨t, ht, hd⟩ := hd
  obtain ⟨role, before, after, hacts, closed⟩ := ht.owned_split
  obtain ⟨outer, front, rest, howned, closed', -⟩ := Stmt.owned_of_definition hd role
  refine ⟨t, before ++ outer, (front ++ ownedActsOf d.body ++ rest) ++ after, hd, ?_, ?_⟩
  · rw [hacts, howned]
    simp only [List.append_assoc, List.cons_append]
  · rw [List.map_append]
    exact closed.append closed'

/-- A definition in the body of another opens its scope while that of the other is open. -/
theorem Module.Defines.opening_inside (he : module.Defines e) (hd : d.StandsIn e.body) :
    ∃ t u before inside after, t.definition? = some d ∧ u.definition? = some e ∧
      module.ownedActs = before ++ ⟨.stmt u, .enter e.name e.kind⟩ ::
        (inside ++ ⟨.stmt t, .enter d.name d.kind⟩ :: after) ∧
      Closed (inside.map OwnedAct.act) := by
  obtain ⟨u, hu, he⟩ := he
  obtain ⟨role, before, after, hacts⟩ := Module.owned_split hu
  obtain ⟨outer, front, rest, howned, -, closed⟩ := Stmt.owned_of_definition he role
  obtain ⟨t, before', after', hd, hbody, closed'⟩ := hd.opening
  refine ⟨t, u, before ++ outer, front ++ before', after' ++ rest ++ after, hd, he, ?_, ?_⟩
  · rw [hacts, howned, hbody]
    simp only [List.append_assoc, List.cons_append]
  · rw [List.map_append]
    exact closed.append closed'

end Tree

namespace ScopeBuilder

/-- There are as many scopes as were opened, and the module's. -/
theorem length_runAll_owned (acts : List OwnedAct) :
    (runAll {} (acts.map OwnedAct.act)).table.scopes.length = (openers acts).length + 1 := by
  rw [length_runAll, opened, List.countP_map, openers, picked, List.length_map,
    ← List.countP_eq_length_filter, Nat.add_comm]
  rfl

end ScopeBuilder

namespace SymbolTable

variable {module : Module} {d e : Definition}

/-- The number of the scope around a definition. -/
def aroundNumber (place : Nat → Nat) : Option Definition → Nat
  | none => root
  | some e => place e.number

/-- **The scopes of a table mirror the definitions of a module.** Here `place` gives the number of
the scope of a definition. -/
structure Mirrors (table : SymbolTable) (module : Module) (place : Nat → Nat) : Prop where
  /-- A definition has a scope of its kind and name, in the scope of the one around it. -/
  scope : ∀ d, module.Defines d → ∃ scope, table.scope? (place d.number) = some scope ∧
    scope.kind = d.kind ∧ scope.name = d.name ∧ (∃ around, module.Around d around) ∧
    ∀ around, module.Around d around → scope.parent = some (aroundNumber place around)
  /-- The scope of a function is found by the number of the function. -/
  function : ∀ f : Function, .stmt (.functionDef f) ∈ module.nodes →
    table.definitionScope? f.site.index = some (place f.site.index)
  /-- Different definitions have different scopes. -/
  distinct : ∀ d e, module.Defines d → module.Defines e → place d.number = place e.number → d = e
  /-- A scope of a function or class is the scope of a definition. -/
  onto : ∀ id scope, table.scope? id = some scope →
    scope.kind = .function ∨ scope.kind = .classBody →
    ∃ d, module.Defines d ∧ d.kind = scope.kind ∧ place d.number = id
  /-- The scopes listed in a scope are those that stand in it. -/
  children : ∀ id scope child, table.scope? id = some scope →
    (child ∈ scope.children ↔ ∃ inner, table.scope? child = some inner ∧ inner.parent = some id)
  /-- Where no other scope with its name stands beside it, the scope of a function is also found
  by its name, from where it stands. -/
  lookup : ∀ f : Function, .stmt (.functionDef f) ∈ module.nodes →
    ∀ (env : Environment) (ns : Namespace) (own outer : Scope), env.table = table →
    table.scope? (place f.site.index) = some own → own.parent = some ns.scope →
    table.scope? ns.scope = some outer →
    (∀ child ∈ outer.children, ∀ scope, table.scope? child = some scope →
      scope.name = f.name.text → child = place f.site.index) →
    env.definitionNamespace ns f = env.childNamespace ns f.name.text

theorem build_shapes (module : Module) :
    (build module).shapes = (ScopeBuilder.runAll {} module.acts).table.shapes :=
  shapes_classify _ _

/-- The scope that a definition opens is the one with its number, in the scope that is current
where it is opened. -/
theorem build_opened (hm : module.Numbered) {t : Stmt} (ht : t.definition? = some d)
    {before after : List OwnedAct}
    (h : module.ownedActs = before ++ ⟨.stmt t, .enter d.name d.kind⟩ :: after) :
    ∃ scope, (build module).scope? (module.scopeNumber d.number) = some scope ∧
      scope.kind = d.kind ∧ scope.name = d.name ∧
      scope.parent = some (ScopeBuilder.runAll {} (before.map OwnedAct.act)).current := by
  have acts : module.acts = before.map OwnedAct.act ++ .enter d.name d.kind ::
      after.map OwnedAct.act := by
    rw [← Module.map_ownedActs, h, List.map_append, List.map_cons]
  have shape := ScopeBuilder.opened_shape {} acts
  rw [ScopeBuilder.length_runAll_owned, ← Module.scopeNumber_eq hm h,
    Stmt.index_of_definition ht, ← build_shapes, shapes_getElem?] at shape
  obtain ⟨scope, found, hshape⟩ := Option.map_eq_some_iff.1 shape
  simp only [Scope.shape, Prod.mk.injEq] at hshape
  exact ⟨scope, found, hshape.2.1, hshape.1, hshape.2.2⟩

/-- The scope of a definition stands in the scope of the one around it. -/
theorem build_parent (hm : module.Numbered) {scope : Scope} {around : Option Definition}
    (hs : (build module).scope? (module.scopeNumber d.number) = some scope)
    (ha : module.Around d around) :
    scope.parent = some (aroundNumber module.scopeNumber around) := by
  cases ha with
  | outermost hd =>
    obtain ⟨t, before, after, ht, hacts, closed⟩ := hd.opening
    obtain ⟨scope', found, -, -, parent⟩ := build_opened hm ht hacts
    cases hs.symm.trans found
    rw [parent, (ScopeBuilder.runAll_closed closed {}).1]
    rfl
  | @inside e he hd =>
    obtain ⟨t, u, before, inside, after, ht, hu, hacts, closed⟩ := he.opening_inside hd
    have hsplit : module.ownedActs = (before ++ ⟨.stmt u, .enter e.name e.kind⟩ :: inside) ++
        ⟨.stmt t, .enter d.name d.kind⟩ :: after := by
      rw [hacts]
      simp only [List.append_assoc, List.cons_append]
    obtain ⟨scope', found, -, -, parent⟩ := build_opened hm ht hsplit
    cases hs.symm.trans found
    -- What comes between the two closes the scopes it opens, so that the outer one is current.
    rw [parent, aroundNumber, ← Stmt.index_of_definition hu, Module.scopeNumber_eq hm hacts,
      List.map_append, List.map_cons,
      ScopeBuilder.runAll_append, ScopeBuilder.runAll_cons, (ScopeBuilder.runAll_closed closed _).1,
      ← ScopeBuilder.length_runAll_owned]
    rfl

/-- The scope of a function is marked with the function. -/
theorem build_marked (hm : module.Numbered) {f : Function}
    (hf : .stmt (.functionDef f) ∈ module.nodes) :
    (build module).definitionScope? f.site.index = some (module.scopeNumber f.site.index) := by
  obtain ⟨scope, hs⟩ := build_function hm hf
  obtain ⟨role, before, after, hacts⟩ := Module.owned_split hf
  obtain ⟨outer, inner, howned, hinner⟩ := f.owned_eq role
  have hsplit : module.ownedActs = (before ++ outer) ++
      ⟨.stmt (.functionDef f), .enter f.name.text .function⟩ ::
        (inner ++ ⟨.stmt (.functionDef f), .leave (some f.site.index)⟩ :: after) := by
    rw [hacts, howned]
    simp only [List.append_assoc, List.cons_append, List.nil_append]
  have acts : module.acts = (before ++ outer).map OwnedAct.act ++ .enter f.name.text .function ::
      (f.innerActs ++ .leave (some f.site.index) :: after.map OwnedAct.act) := by
    rw [← Module.map_ownedActs, hsplit, ← hinner]
    simp only [List.map_append, List.map_cons]
  have opened := (hs.opened hm acts).1
  rw [ScopeBuilder.length_runAll_owned, ← Module.scopeNumber_eq hm hsplit] at opened
  rw [hs.marked, opened]
  rfl

theorem scopeNumber_injective (hm : module.Numbered) (hd : module.Defines d)
    (he : module.Defines e) (h : module.scopeNumber d.number = module.scopeNumber e.number) :
    d = e := by
  have opens {d : Definition} (hd : module.Defines d) :
      some d.number ∈ (openers module.ownedActs).map Node.stmtNumber? := by
    obtain ⟨t, before, after, ht, hacts⟩ := hd.opening
    rw [hacts]
    simp [Node.stmtNumber?, Stmt.index_of_definition ht]
  have number : d.number = e.number := by
    have same := (List.idxOf_inj (opens hd)).1 (Nat.succ.inj h)
    exact Option.some.inj same
  obtain ⟨t, ht, hd⟩ := hd
  obtain ⟨u, hu, he⟩ := he
  cases hm.stmt_eq ht hu (by rw [Stmt.index_of_definition hd, Stmt.index_of_definition he, number])
  exact Option.some.inj (hd.symm.trans he)

/-- Scopes of functions and classes are opened by definitions. -/
theorem build_onto (hm : module.Numbered) {id : Nat} {scope : Scope}
    (hs : (build module).scope? id = some scope)
    (hk : scope.kind = .function ∨ scope.kind = .classBody) :
    ∃ d, module.Defines d ∧ d.kind = scope.kind ∧ module.scopeNumber d.number = id := by
  have shape : (ScopeBuilder.runAll {} module.acts).table.shapes[id]? = some scope.shape := by
    rw [← build_shapes, shapes_getElem?, hs]
    rfl
  have inner : 1 ≤ id := by
    -- The first scope is the one of the module.
    by_contra hid
    obtain rfl : id = 0 := by omega
    obtain ⟨later, hlater⟩ := ScopeBuilder.runAll_shapes {} module.acts
    rw [← hlater] at shape
    have kind : ScopeKind.module = scope.kind := congrArg (·.2.1) (Option.some.inj shape)
    rcases hk with hk | hk <;> rw [hk] at kind <;> cases kind
  obtain ⟨before, after, hacts, hid⟩ := ScopeBuilder.exists_opening {} shape inner
  rw [← Module.map_ownedActs] at hacts
  obtain ⟨before', rest, hsplit, rfl, hrest⟩ := List.map_eq_append_iff.1 hacts
  obtain ⟨a, after', rfl, hact, rfl⟩ := List.map_eq_cons_iff.1 hrest
  obtain ⟨hn, role, step⟩ := Module.exists_owner (show a ∈ module.ownedActs by rw [hsplit]; simp)
  rw [hact] at step
  rcases Node.definition_of_enter step with hlambda | ⟨t, d, owner, hd, hname, hkind⟩
  · rcases hk with hk | hk <;> rw [hk] at hlambda <;> cases hlambda
  · have opener : a = ⟨.stmt t, .enter d.name d.kind⟩ := by
      obtain ⟨o, act⟩ := a
      rw [show o = .stmt t from owner, show act = _ from hact, hname, hkind]
    rw [opener] at hsplit
    refine ⟨d, ⟨t, owner ▸ hn, hd⟩, hkind, ?_⟩
    rw [← Stmt.index_of_definition hd, Module.scopeNumber_eq hm hsplit, hid,
      ScopeBuilder.length_runAll_owned]

/-- A child that is the only one with its name is the one found under it. -/
theorem childNamed?_of_unique {table : SymbolTable} {id child : Nat} {outer own : Scope}
    {name : String} (ho : table.scope? id = some outer) (hc : child ∈ outer.children)
    (hs : table.scope? child = some own) (hname : own.name = name)
    (only : ∀ c ∈ outer.children, ∀ scope, table.scope? c = some scope → scope.name = name →
      c = child) : table.childNamed? id name = some child := by
  show (table.scope? id).bind _ = _
  rw [ho, Option.bind_some]
  cases hf : outer.children.find? fun c => (table.scope? c).any (·.name = name) with
  | none =>
    have absent := List.find?_eq_none.1 hf child hc
    simp [hs, hname] at absent
  | some c =>
    have found := List.find?_some hf
    obtain ⟨scope, hscope, hmatch⟩ := (Option.any_eq_true _ _).1 found
    rw [only c (List.mem_of_find?_eq_some hf) scope hscope (by simpa using hmatch)]

/-- **The table of a numbered module mirrors its definitions.** -/
theorem build_mirrors (hm : module.Numbered) : Mirrors (build module) module module.scopeNumber where
  scope := by
    intro d hd
    obtain ⟨t, before, after, ht, hacts⟩ := hd.opening
    obtain ⟨scope, found, kind, name, -⟩ := build_opened hm ht hacts
    exact ⟨scope, found, kind, name, Module.exists_around hd, fun around => build_parent hm found⟩
  function := fun f hf => build_marked hm hf
  distinct := fun d e hd he => scopeNumber_injective hm hd he
  onto := fun id scope hs hk => build_onto hm hs hk
  children := by
    intro id scope child hs
    rw [(isTree_build module).listed hs, parent?, Option.bind_eq_some_iff]
  lookup := by
    intro f hf env ns own outer htable hown hparent houter only
    have number := (isTree_build module).numbered hown
    have listed : module.scopeNumber f.site.index ∈ outer.children := by
      rw [(isTree_build module).listed houter, parent?, hown]
      exact hparent
    obtain ⟨t, before, after, ht, hacts⟩ := Module.Defines.opening ⟨_, hf, rfl⟩
    obtain ⟨scope, found, -, name, -⟩ := build_opened hm ht hacts
    cases hown.symm.trans found
    have named := childNamed?_of_unique houter listed hown name only
    have inner : env.definitionNamespace ns f = .ok ⟨own.id, own.parent.getD ns.global⟩ :=
      Environment.definitionNamespace_ok.2
        ⟨_, own, htable ▸ build_marked hm hf, htable ▸ hown, rfl⟩
    rw [inner, Environment.childNamespace, htable, named, number, hparent]
    rfl

/-- **The scope tree of a source that parses mirrors its definitions.** -/
theorem scopes_mirror_definitions {source : Source} {module : Module}
    (h : parse source = .ok module) : ∃ place, Mirrors (build module) module place :=
  ⟨module.scopeNumber, build_mirrors (numbered_of_parse h)⟩

/-- Three functions of one name, in a class, in the module, and in a class in a function, with a
lambda among the defaults. -/
def sharedNames : Source where
  file := "main.py"
  text := "class A:\n  def f(k=lambda: 0):\n    def g(): pass\ndef f():\n  class B:\n    if x:\n      def f(): pass\n"

theorem sharedNames_mirrored : ∃ module place, parse sharedNames = .ok module ∧
    (build module).scopes.map Scope.name = ["top", "A", "lambda", "f", "g", "f", "B", "f"] ∧
    Mirrors (build module) module place := by
  have names : (parse sharedNames).toOption.map (fun module => (build module).scopes.map Scope.name)
      = some ["top", "A", "lambda", "f", "g", "f", "B", "f"] := by
    decide +kernel
  cases hp : parse sharedNames with
  | error e => rw [hp] at names; cases names
  | ok module =>
    rw [hp] at names
    obtain ⟨place, mirrors⟩ := scopes_mirror_definitions hp
    exact ⟨module, place, rfl, Option.some.inj names, mirrors⟩

end SymbolTable

end SdkUsage
