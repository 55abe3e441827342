/-
Whether a name is read does not matter for where it is bound. A name that is used
once more in a scope that has it changes nothing but its mark `referenced`. So a
table without these marks, `unread`, is enough to answer questions about names,
and calls of entry points, which only read names of the scope they stand in, leave
it as it is.
-/
import SdkUsage.EntryPoint
import SdkUsage.Proofs.Scope.Build
import SdkUsage.Proofs.Scope.Environment

namespace SdkUsage

open SdkUsage.Tree

/-! ## Tables without marks -/

/-- A name, whether it is read or not. -/
def Symbol.unread (symbol : Symbol) : Symbol := { symbol with referenced := false }

/-- A scope without marks of what is read. -/
def Scope.unread (scope : Scope) : Scope :=
  { scope with symbols := scope.symbols.mapValues fun _ symbol => symbol.unread }

/-- A table without marks of what is read. -/
def SymbolTable.unread (table : SymbolTable) : SymbolTable :=
  { table with scopes := table.scopes.map Scope.unread }

/-- A table in the making, without marks of what is read. -/
def ScopeBuilder.unread (builder : ScopeBuilder) : ScopeBuilder :=
  { builder with table := builder.table.unread }

theorem Scope.symbol?_unread (scope : Scope) (name : String) :
    scope.unread.symbol? name = (scope.symbol? name).map Symbol.unread :=
  SortedMap.get?_mapValues ..

theorem SymbolTable.scope?_unread (table : SymbolTable) (id : Nat) :
    table.unread.scope? id = (table.scope? id).map Scope.unread :=
  List.getElem?_map ..

/-- Scopes that agree but for what is read. -/
theorem Scope.unread_congr {scope scope' : Scope} (hid : scope.id = scope'.id)
    (hname : scope.name = scope'.name) (hkind : scope.kind = scope'.kind)
    (hparent : scope.parent = scope'.parent) (hchildren : scope.children = scope'.children)
    (hsymbols : ∀ name, (scope.symbol? name).map Symbol.unread
      = (scope'.symbol? name).map Symbol.unread) : scope.unread = scope'.unread := by
  have symbols : scope.unread.symbols = scope'.unread.symbols := by
    refine SortedMap.ext fun name => ?_
    have := hsymbols name
    rwa [← Scope.symbol?_unread, ← Scope.symbol?_unread] at this
  obtain ⟨id, name, kind, parent, _, children⟩ := scope
  obtain ⟨id', name', kind', parent', _, children'⟩ := scope'
  cases hid
  cases hname
  cases hkind
  cases hparent
  cases hchildren
  simp only [Scope.unread] at symbols ⊢
  rw [symbols]

theorem Scope.unread_unread (scope : Scope) : scope.unread.unread = scope.unread :=
  Scope.unread_congr rfl rfl rfl rfl rfl fun name => by
    rw [Scope.symbol?_unread, Option.map_map]
    rfl

theorem Symbol.unread_noteUse (symbol : Symbol) (usage : Usage) :
    (symbol.noteUse usage).unread = (symbol.unread.noteUse usage).unread := by
  cases usage <;> rfl

theorem Scope.unread_noteUse (scope : Scope) (name : String) (usage : Usage) :
    (scope.noteUse name usage).unread = (scope.unread.noteUse name usage).unread := by
  refine Scope.unread_congr rfl rfl rfl rfl rfl fun other => ?_
  simp only [Scope.noteUse, Scope.symbol?, SortedMap.get?_insert]
  split
  · have known := scope.symbol?_unread name
    rw [Scope.symbol?, Scope.symbol?] at known
    rw [known]
    cases scope.symbols.get? name with
    | none => rfl
    | some symbol => exact congrArg some (symbol.unread_noteUse usage)
  · have known := scope.symbol?_unread other
    rw [Scope.symbol?, Scope.symbol?] at known
    rw [known, Option.map_map]
    rfl

/-- Reading a name that a scope has leaves a mark only. -/
theorem Scope.unread_read {scope : Scope} {name : String} (h : (scope.symbol? name).isSome) :
    (scope.noteUse name .referenced).unread = scope.unread := by
  refine Scope.unread_congr rfl rfl rfl rfl rfl fun other => ?_
  simp only [Scope.noteUse, Scope.symbol?, SortedMap.get?_insert]
  split
  · next heq =>
    subst heq
    obtain ⟨symbol, hs⟩ := Option.isSome_iff_exists.1 h
    rw [Scope.symbol?] at hs
    rw [hs]
    rfl
  · rfl

/-! ## Running acts -/

namespace SymbolTable

theorem unread_unread (table : SymbolTable) : table.unread.unread = table.unread := by
  simp [unread, Scope.unread_unread]

theorem unread_modifyScope (table : SymbolTable) (id : Nat) {f : Scope → Scope}
    (hf : ∀ scope, (f scope).unread = (f scope.unread).unread) :
    (table.modifyScope id f).unread = (table.unread.modifyScope id f).unread := by
  simp only [unread, modifyScope, SymbolTable.mk.injEq, and_true]
  refine List.ext_getElem? fun i => ?_
  simp only [List.getElem?_map, List.getElem?_modify]
  cases table.scopes[i]? with
  | none => rfl
  | some scope =>
    by_cases h : id = i
    · simp [h, hf scope]
    · simp [h, Scope.unread_unread]

theorem unread_pushScope (table : SymbolTable) (parent : Nat) (name : String) (kind : ScopeKind) :
    (table.pushScope parent name kind).unread
      = (table.unread.pushScope parent name kind).unread := by
  have added : ∀ scope : Scope, (scope.addChild table.scopes.length).unread
      = (scope.unread.addChild table.scopes.length).unread := fun scope =>
    congrArg (Scope.addChild · table.scopes.length) scope.unread_unread.symm
  have modified := table.unread_modifyScope parent added
  simp only [unread, modifyScope, pushScope, SymbolTable.mk.injEq, and_true, List.map_append,
    List.length_map] at modified ⊢
  rw [modified]

end SymbolTable

namespace ScopeBuilder

variable {builder builder' : ScopeBuilder}

theorem unread_close (builder : ScopeBuilder) :
    builder.close.unread = builder.unread.close.unread := by
  obtain ⟨table, declarations, current, outer⟩ := builder
  cases outer <;> simp [close, unread, SymbolTable.unread_unread]

theorem unread_run (builder : ScopeBuilder) (act : Act) :
    (builder.run act).unread = (builder.unread.run act).unread := by
  cases act with
  | use name usage =>
    have used := builder.table.unread_modifyScope builder.current
      fun scope => scope.unread_noteUse name usage
    exact congrArg (fun table => { builder with table }) used
  | declare name binding => simp [run, unread, SymbolTable.unread_unread]
  | enter name kind =>
    simp only [run, unread]
    rw [builder.table.unread_pushScope]
    simp [SymbolTable.unread]
  | leave mark =>
    cases mark with
    | none => exact builder.unread_close
    | some d => exact (builder.assign d).unread_close

/-- Acts do not depend on what is read. -/
theorem unread_runAll (h : builder.unread = builder'.unread) (acts : List Act) :
    (builder.runAll acts).unread = (builder'.runAll acts).unread := by
  induction acts generalizing builder builder' with
  | nil => exact h
  | cons act acts ih =>
    refine ih ?_
    rw [builder.unread_run, h, ← builder'.unread_run]

/-- Reading a name that the current scope has leaves a mark only. -/
theorem unread_read {scope : Scope} {name : String}
    (hs : builder.table.scope? builder.current = some scope) (hn : (scope.symbol? name).isSome) :
    (builder.run (.use name .referenced)).unread = builder.unread := by
  have scopes : (builder.table.modifyScope builder.current (·.noteUse name .referenced)).unread
      = builder.table.unread := by
    simp only [SymbolTable.unread, SymbolTable.modifyScope, SymbolTable.mk.injEq, and_true]
    refine List.ext_getElem? fun i => ?_
    simp only [List.getElem?_map, List.getElem?_modify]
    by_cases h : builder.current = i
    · subst h
      rw [show builder.table.scopes[builder.current]? = some scope from hs]
      simpa using Scope.unread_read hn
    · simp [h]
  exact congrArg (fun table => { builder with table }) scopes

end ScopeBuilder

/-! ## Questions about names -/

namespace SymbolTable

theorem enclosing_unread (table : SymbolTable) (id : Nat) :
    table.unread.enclosing id = (table.enclosing id).map Scope.unread := by
  rw [enclosing, enclosing, scope?_unread]
  cases hs : table.scope? id with
  | none => rfl
  | some scope =>
    cases hp : scope.parent with
    | none => simp [Scope.unread, hp]
    | some parent =>
      simp only [Option.map_some, Option.bind_some, Scope.unread, hp]
      split
      · next hlt =>
        rw [enclosing_unread, scope?_unread, List.map_append]
        cases table.scope? parent <;> rfl
      · rfl
termination_by id

end SymbolTable

theorem boundAround_unread (declarations : Declarations) (name : String) (outer : List Scope) :
    boundAround declarations name (outer.map Scope.unread) = boundAround declarations name outer := by
  induction outer with
  | nil => rfl
  | cons scope outer ih =>
    have assigned : (scope.unread.symbol? name).any (·.assigned)
        = (scope.symbol? name).any (·.assigned) := by
      rw [Scope.symbol?_unread, Option.any_map]
      rfl
    simp only [List.map_cons, boundAround, ih, assigned]
    rfl

theorem Symbol.classify_unread (declarations : Declarations) (scope : Scope) (outer : List Scope)
    (symbol : Symbol) :
    symbol.unread.classify declarations scope.unread (outer.map Scope.unread)
      = symbol.classify declarations scope outer := by
  simp only [Symbol.classify, boundAround_unread]
  rfl

/-- A scope with its names classified. -/
def Scope.classified (declarations : Declarations) (outer : List Scope) (scope : Scope) : Scope :=
  { scope with
    symbols := scope.symbols.mapValues fun _ symbol =>
      { symbol with binding := symbol.classify declarations scope outer } }

theorem Scope.unread_classified (declarations : Declarations) (outer : List Scope)
    (scope : Scope) : (scope.classified declarations outer).unread
      = (scope.unread.classified declarations (outer.map Scope.unread)).unread := by
  refine Scope.unread_congr rfl rfl rfl rfl rfl fun name => ?_
  simp only [Scope.classified, Scope.unread, Scope.symbol?, SortedMap.get?_mapValues]
  cases scope.symbols.get? name with
  | none => rfl
  | some symbol =>
    have binding := symbol.classify_unread declarations scope outer
    exact congrArg (fun binding => some { symbol.unread with binding }) binding.symm

theorem SymbolTable.unread_classify (table : SymbolTable) (declarations : Declarations) :
    (table.classify declarations).unread = (table.unread.classify declarations).unread := by
  have classified : ∀ table : SymbolTable, table.classify declarations = { table with
      scopes := table.scopes.map fun scope =>
        scope.classified declarations (table.enclosing scope.id) } := fun _ => rfl
  rw [classified, classified]
  simp only [unread, List.map_map, SymbolTable.mk.injEq, and_true]
  refine List.map_congr_left fun scope _ => ?_
  have outer := table.enclosing_unread scope.id
  exact (scope.unread_classified declarations (table.enclosing scope.id)).trans (by rw [← outer]; rfl)

namespace Environment

variable {env env' : Environment}

theorem scope_unread (env : Environment) (id : Nat) :
    ({ env with table := env.table.unread } : Environment).scope id
      = (env.scope id).map Scope.unread := by
  simp only [Environment.scope, SymbolTable.scope?_unread]
  cases env.table.scope? id <;> rfl

theorem symbol_unread (env : Environment) (id : Nat) (name : String) :
    ({ env with table := env.table.unread } : Environment).symbol id name
      = (env.symbol id name).map Symbol.unread := by
  simp only [Environment.symbol, scope_unread]
  cases env.scope id with
  | error e => rfl
  | ok scope =>
    have known := scope.symbol?_unread name
    simp only [Except.map, bind, Except.bind]
    cases hs : scope.symbol? name with
    | none =>
      rw [hs] at known
      simp only [known, Option.map_none]
      rfl
    | some symbol =>
      rw [hs] at known
      simp only [known, Option.map_some]

theorem owner_of_unread (env : Environment) (ns : Namespace) (name : String) :
    ({ env with table := env.table.unread } : Environment).owner ns name = env.owner ns name := by
  simp only [Environment.owner, scope_unread, symbol_unread]
  cases env.symbol ns.scope name with
  | error e => rfl
  | ok symbol =>
    show (if symbol.isGlobal then _ else _) = (if symbol.isGlobal then _ else _)
    split
    · cases env.scope ns.global with
      | error e => rfl
      | ok global =>
        show Except.ok ((global.unread.symbol? name).map _) = _
        rw [Scope.symbol?_unread, Option.map_map]
        rfl
    · rfl

/-- Whose name it is does not depend on what is read. -/
theorem owner_unread (h : env.table.unread = env'.table.unread) (ns : Namespace) (name : String) :
    env.owner ns name = env'.owner ns name := by
  rw [← owner_of_unread env, ← owner_of_unread env', h]
  rfl

/-- The namespace of a function does not depend on what is read. -/
theorem definitionNamespace_unread (h : env.table.unread = env'.table.unread) (ns : Namespace)
    {d : Function} {inner : Namespace} (hd : env.definitionNamespace ns d = .ok inner) :
    env'.definitionNamespace ns d = .ok inner := by
  obtain ⟨id, scope, hid, hs, rfl⟩ := definitionNamespace_ok.1 hd
  have same : (env'.table.scope? id).map Scope.unread = some scope.unread := by
    rw [← SymbolTable.scope?_unread, ← h, SymbolTable.scope?_unread, hs]
    rfl
  obtain ⟨scope', hs', heq⟩ := Option.map_eq_some_iff.1 same
  refine definitionNamespace_ok.2 ⟨id, scope', ?_, hs', ?_⟩
  · rw [← hid]
    exact congrArg (·.definitionScope? d.site.index) h.symm
  · have hid' : scope'.unread.id = scope.unread.id := congrArg Scope.id heq
    have hparent : scope'.unread.parent = scope.unread.parent := congrArg Scope.parent heq
    exact congrArg₂ (fun id parent => Namespace.mk id (parent.getD ns.global)) hid'.symm
      hparent.symm

end Environment

/-! ## Calls of entry points -/

/-- Steps that lead to the same table, apart from what is read. -/
def Alike (steps steps' : List Step) : Prop :=
  ∀ builder builder' : ScopeBuilder, builder'.Sound → builder.unread = builder'.unread →
    (builder.runAll (steps.flatMap stepActs)).unread
      = (builder'.runAll (steps'.flatMap stepActs)).unread

namespace Alike

theorem refl (steps : List Step) : Alike steps steps :=
  fun _ _ _ h => ScopeBuilder.unread_runAll h _

theorem append {as as' bs bs' : List Step} (h : Alike as as') (h' : Alike bs bs') :
    Alike (as ++ bs) (as' ++ bs') := by
  intro builder builder' sound heq
  rw [List.flatMap_append, List.flatMap_append, ScopeBuilder.runAll_append,
    ScopeBuilder.runAll_append]
  exact h' _ _ (sound.runAll _) (h _ _ sound heq)

/-- A statement is alike if its steps are. -/
theorem stmt {t t' : Stmt} (h : Alike t.steps t'.steps) : Alike [.stmt t] [.stmt t'] := by
  have acts : ∀ t : Stmt, [Step.stmt t].flatMap stepActs = t.steps.flatMap stepActs := fun t => by
    rw [List.flatMap_singleton]
    exact Node.acts_eq .read (.stmt t)
  unfold Alike
  rw [acts, acts]
  exact h

theorem acts_callOf (d : Function) (c : EntryPoint.Counts) :
    (Node.stmt (EntryPoint.callOf d c)).acts .read = [.use d.name.text .referenced] := by
  rw [Node.acts_eq]
  show Node.acts .read (.expr (.call _ _ [] [])) ++ [] = _
  rw [List.append_nil, Node.acts_eq]
  show Node.acts .read (.expr (.name _ _)) ++ [] = _
  rw [List.append_nil, Node.acts_eq]
  rfl

/-- A function is called where it is defined. -/
theorem call (d : Function) (c : EntryPoint.Counts) :
    Alike [.stmt (.functionDef d)] [.stmt (.functionDef d), .stmt (EntryPoint.callOf d c)] := by
  intro builder builder' sound heq
  obtain ⟨usage, before, after, hacts, closed⟩ := Node.Names.function (d := d).split .read
  obtain ⟨scope, hs, hn⟩ := ScopeBuilder.declared_of_use sound hacts closed
  rw [← (ScopeBuilder.runAll_closed (Node.acts_closed _ _) builder').1] at hs
  show (builder.runAll (Node.acts .read _ ++ [])).unread
    = (builder'.runAll (Node.acts .read _ ++ (Node.acts .read _ ++ []))).unread
  rw [List.append_nil, List.append_nil, acts_callOf, ScopeBuilder.runAll_append]
  exact (ScopeBuilder.unread_runAll heq _).trans (ScopeBuilder.unread_read hs hn).symm

end Alike

namespace EntryPoint

mutual

/-- The functions in a statement that are called behind their definitions. -/
def called (route : String) : Stmt → List Function
  | .functionDef definition => if definition.isEntryPoint route then [definition] else []
  | .branch _ _ body orelse | .whileLoop _ _ body orelse | .forLoop _ _ _ body orelse _ =>
    calledIn route body ++ calledIn route orelse
  | .withBlock _ _ body _ | .classDef ⟨_, _, _, _, _, body⟩ => calledIn route body
  | .tryBlock _ body handlers orelse finalbody =>
    (calledIn route body ++ calledInHandlers route handlers)
      ++ (calledIn route orelse ++ calledIn route finalbody)
  | _ => []

/-- The functions in statements that are called behind their definitions. -/
def calledIn (route : String) : List Stmt → List Function
  | [] => []
  | stmt :: stmts => called route stmt ++ calledIn route stmts

/-- The functions in handlers that are called behind their definitions. -/
def calledInHandlers (route : String) : List (Handler Stmt) → List Function
  | [] => []
  | ⟨_, _, _, body⟩ :: handlers => calledIn route body ++ calledInHandlers route handlers

end

/-- Steps with calls of functions right behind their definitions. -/
inductive Weaves : List Function → List Step → List Step → Prop
  | refl (steps) : Weaves [] steps steps
  | append {ds es as as' bs bs'} : Weaves ds as as' → Weaves es bs bs' →
    Weaves (ds ++ es) (as ++ bs) (as' ++ bs')
  | stmt {ds t t'} : Weaves ds t.steps t'.steps → Weaves ds [.stmt t] [.stmt t']
  | call (d c) : Weaves [d] [.stmt (.functionDef d)] [.stmt (.functionDef d), .stmt (callOf d c)]

namespace Weaves

variable {ds es : List Function} {ts ts' us us' : List Stmt}

theorem alike {steps steps' : List Step} (h : Weaves ds steps steps') : Alike steps steps' := by
  induction h with
  | refl steps => exact .refl steps
  | append _ _ ih ih' => exact ih.append ih'
  | stmt _ ih => exact ih.stmt
  | call d c => exact .call d c

theorem around {as bs steps steps' : List Step} (h : Weaves ds steps steps') :
    Weaves ds (as ++ steps ++ bs) (as ++ steps' ++ bs) :=
  List.append_nil ds ▸ ((refl as).append h).append (refl bs)

/-- Two lists of statements one after another. -/
theorem both (h : Weaves ds (ts.map .stmt) (us.map .stmt))
    (h' : Weaves es (ts'.map .stmt) (us'.map .stmt)) :
    Weaves (ds ++ es) ((ts ++ ts').map .stmt) ((us ++ us').map .stmt) := by
  rw [List.map_append, List.map_append]
  exact h.append h'

/-- Two lists of statements after an expression. -/
theorem children {e : Expr} (h : Weaves ds (ts.map .stmt) (us.map .stmt))
    (h' : Weaves es (ts'.map .stmt) (us'.map .stmt)) :
    Weaves (ds ++ es) ((.expr e :: (stmtNodes ts ++ stmtNodes ts')).map (.part .read))
      ((.expr e :: (stmtNodes us ++ stmtNodes us')).map (.part .read)) := by
  have parts : ∀ ts : List Stmt, (stmtNodes ts).map (Step.part .read) = ts.map .stmt :=
    fun _ => List.map_map ..
  rw [List.map_cons, List.map_cons, List.map_append, List.map_append]
  simp only [parts]
  exact (refl [.read e]).append (h.append h')

end Weaves

mutual

theorem ofStmt_weaves (route : String) : ∀ (t : Stmt) (c : Counts),
    Weaves (called route t) [.stmt t] (.stmt (ofStmt route t c).1 ::
      (callsAfter route t (ofStmt route t c).2).1.map .stmt)
  | .functionDef d, c => by
    show Weaves (if d.isEntryPoint route then [d] else []) _
      (_ :: (if d.isEntryPoint route then ([callOf d c], c.next) else ([], c)).1.map .stmt)
    split
    · exact .call d c
    · exact .refl _
  | .branch _ _ body orelse, c =>
    .stmt (.children (ofStmts_weaves route body c) (ofStmts_weaves route orelse _))
  | .whileLoop _ _ body orelse, c =>
    .stmt (.children (ofStmts_weaves route body c) (ofStmts_weaves route orelse _))
  | .forLoop _ target iter body orelse _, c =>
    .stmt ((Weaves.refl [.read iter, .bind target]).append
      (.both (ofStmts_weaves route body c) (ofStmts_weaves route orelse _)))
  | .withBlock _ items body _, c =>
    .stmt ((Weaves.refl (items.flatMap WithItem.steps)).append (ofStmts_weaves route body c))
  | .tryBlock _ body handlers orelse finalbody, c =>
    .stmt (((ofStmts_weaves route body c).append (ofHandlers_weaves route handlers _)).append
      (.both (ofStmts_weaves route orelse _) (ofStmts_weaves route finalbody _)))
  | .classDef ⟨_, _, _, _, _, body⟩, c => .stmt (ofStmts_weaves route body c).around
  | .expr .., _ | .assign .., _ | .augAssign .., _ | .annAssign .., _ | .importModules .., _
  | .importFrom .., _ | .returning .., _ | .raising .., _ | .asserting .., _
  | .deleting .., _ | .globals .., _ | .nonlocals .., _ | .pass _, _ | .breakLoop _, _
  | .continueLoop _, _ => .refl _

theorem ofStmts_weaves (route : String) : ∀ (ts : List Stmt) (c : Counts),
    Weaves (calledIn route ts) (ts.map .stmt) ((ofStmts route ts c).1.map .stmt)
  | [], _ => .refl []
  | t :: ts, c => by
    have rest := ofStmts_weaves route ts (callsAfter route t (ofStmt route t c).2).2
    show Weaves _ ([.stmt t] ++ ts.map .stmt) (((ofStmt route t c).1 :: _ ++ _).map .stmt)
    rw [List.map_append]
    exact (ofStmt_weaves route t c).append rest

theorem ofHandlers_weaves (route : String) : ∀ (hs : List (Handler Stmt)) (c : Counts),
    Weaves (calledInHandlers route hs) (hs.flatMap Handler.steps)
      ((ofHandlers route hs c).1.flatMap Handler.steps)
  | [], _ => .refl []
  | ⟨_, _, _, body⟩ :: hs, c =>
    ((Weaves.refl _).append (ofStmts_weaves route body c)).append (ofHandlers_weaves route hs _)

end

end EntryPoint

/-- **Calls of the entry points of a module change nothing in its table but what is
read.** -/
theorem SymbolTable.unread_build_invokeEntryPoints (route : String) (module : Module) :
    (build (module.invokeEntryPoints route)).unread = (build module).unread := by
  have alike := (EntryPoint.ofStmts_weaves route module.body
    ⟨module.expressions, module.statements⟩).alike {} {} ScopeBuilder.sound_start rfl
  rw [← actsOf_eq, ← actsOf_eq] at alike
  calc
    (build (module.invokeEntryPoints route)).unread
      = ((ScopeBuilder.runAll {} (module.invokeEntryPoints route).acts).unread.table.classify
          (ScopeBuilder.runAll {} (module.invokeEntryPoints route).acts).unread.declarations).unread :=
        unread_classify ..
    _ = ((ScopeBuilder.runAll {} module.acts).unread.table.classify
          (ScopeBuilder.runAll {} module.acts).unread.declarations).unread := by
        rw [show (ScopeBuilder.runAll {} module.acts).unread = _ from alike]
        rfl
    _ = (build module).unread := (unread_classify ..).symm

end SdkUsage
