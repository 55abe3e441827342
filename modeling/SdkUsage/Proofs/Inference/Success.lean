/-
Runs over a module do not fail. The module's own table has every name that a
run looks up, in the scope in which it is looked up, and the tables of types
have room for every node. So there is no reason for which a run would fail.

That bodies are nested less deeply than the bound allows is part of
`Equipped.succeeds`: with the recursion guard the functions that are being
analyzed are different ones.
-/
import SdkUsage.Proofs.EntryPoint
import SdkUsage.Proofs.Grammar.Statement
import SdkUsage.Proofs.Inference.Frame
import SdkUsage.Proofs.Inference.Stop

namespace SdkUsage

open SdkUsage.Tree SdkUsage.Inference

namespace Inference

variable {config : Config} {module : Module} {frame : Frame} {s s' : State} {e : InferenceError}

/-! ## Tables and frames -/

/-- A name is a name of a scope in the table of a module. -/
def Declared (module : Module) (id : Nat) (name : String) : Prop :=
  ∃ scope symbol, (SymbolTable.build module).scope? id = some scope ∧
    scope.symbol? name = some symbol

/-- A state with the tables of a module. -/
structure State.Ready (module : Module) (s : State) : Prop where
  table : s.env.table = .build module
  exprs : s.types.exprs.size = module.expressions
  stmts : s.types.stmts.size = module.statements
  definitions : ∀ key d, s.env.definitions.get? key = some d → DefinedIn module d

/-- A frame of a run over a module: its namespace is the one of what is analyzed
in it, and the functions that are being analyzed are different ones. -/
structure Frame.Sound (module : Module) (frame : Frame) : Prop where
  fits : frame.Fits module
  function : ∀ d ∈ frame.function, DefinedIn module d
  active : ∀ d ∈ frame.active, DefinedIn module d
  distinct : frame.stack.Nodup

theorem State.Ready.symbol (h : s.Ready module) {id : Nat} {name : String}
    (hd : Declared module id name) : ∃ symbol, s.env.symbol id name = .ok symbol := by
  obtain ⟨scope, symbol, hs, hn⟩ := hd
  exact ⟨symbol, Environment.symbol_ok.2 ⟨scope, h.table ▸ hs, hn⟩⟩

theorem State.Ready.act (h : s.Ready module) {action : Action}
    (hd : ∀ scope name d, action = .define scope name d → DefinedIn module d) :
    (s.act action).Ready module where
  table := (action.onEnv_table s.env).trans h.table
  exprs := (action.size_onTypes_exprs s.types).trans h.exprs
  stmts := (action.size_onTypes_stmts s.types).trans h.stmts
  definitions := fun key d hk => by
    cases action with
    | define scope name definition =>
      simp only [State.act_env, Action.get?_define] at hk
      split at hk
      · cases hk
        exact hd scope name d rfl
      · exact h.definitions key d hk
    | bind scope name type => cases type <;> exact h.definitions key d hk
    | annotate | record | credit | call | skip => exact h.definitions key d hk

namespace Frame.Sound

/-- The scope that a name which is not bound here falls back to is there. -/
theorem global (h : frame.Sound module) :
    ∃ scope, (SymbolTable.build module).scope? frame.ns.global = some scope := by
  have fits := h.fits
  unfold Frame.Fits at fits
  split at fits
  · obtain ⟨scope, found, -⟩ := SymbolTable.build_module module
    rw [fits]
    exact ⟨scope, found⟩
  · obtain ⟨scope, hs, -, hp⟩ := fits
    obtain ⟨parent, outer, hp', found⟩ := hs.parent
    cases hp.symm.trans hp'
    exact ⟨outer, found⟩

/-- **What is analyzed in a frame uses names of the frame's scope.** -/
theorem declared (h : frame.Sound module) {n : Node} {name : String}
    (hn : Within (frame.body module) n) (hname : n.Names name) :
    Declared module frame.ns.scope name := by
  have fits := h.fits
  unfold Frame.Fits at fits
  unfold Frame.body at hn
  split at fits
  · next hf =>
    rw [hf] at hn
    obtain ⟨scope, found, -, names⟩ := SymbolTable.build_module module
    obtain ⟨symbol, hs⟩ := Option.isSome_iff_exists.1 (names n name hn hname)
    rw [fits]
    exact ⟨scope, symbol, found, hs⟩
  · next d hf =>
    rw [hf] at hn
    obtain ⟨scope, hs, hns, -⟩ := fits
    obtain ⟨symbol, hsymbol⟩ := Option.isSome_iff_exists.1 (hs.names n name hn hname)
    rw [hns]
    exact ⟨scope, symbol, hs.found, hsymbol⟩

/-- A function that is not active may be entered. -/
theorem enter (h : frame.Sound module) {d : Function} {ns : Namespace} (hd : DefinedIn module d)
    (hns : ns.Of module d) (hfree : frame.isActive d = false) :
    (frame.enter ns d).Sound module where
  fits := hns
  function := by
    rintro _ ⟨⟩
    exact hd
  active := Frame.active_enter h.active hd ns
  distinct := List.nodup_cons.2 ⟨Frame.not_mem_stack hfree, h.distinct⟩

/-- There are not more functions active than the module has. -/
theorem length_le (h : frame.Sound module) : frame.active.length ≤ module.functions.length := by
  have functions : ∀ i ∈ frame.stack, ∃ d ∈ module.functions, d.site.index = i := by
    intro i hi
    obtain ⟨d, hd, rfl⟩ := List.mem_map.1 hi
    exact ⟨d, List.mem_filterMap.2 ⟨_, h.active d hd, rfl⟩, rfl⟩
  have le := length_le_functions h.distinct functions
  rwa [Frame.stack, List.length_map] at le

end Frame.Sound

/-! ## No reason to fail -/

/-- A run with the tables of a module, in a frame of a run over it. -/
structure Equipped (module : Module) (s : State) : Prop where
  ready : s.Ready module
  sound : s.frame.Sound module

namespace Equipped

theorem declared (h : Equipped module s) {n : Node} {name : String} (hn : s.Here module n)
    (hname : n.Names name) : ∃ symbol, s.env.symbol s.frame.ns.scope name = .ok symbol :=
  h.ready.symbol (h.sound.declared hn hname)

theorem mem_nodes (h : Equipped module s) {n : Node} (hn : s.Here module n) : n ∈ module.nodes :=
  Frame.mem_nodes h.sound.function hn

variable (hm : module.Numbered)

include hm

theorem expr_lt (h : Equipped module s) {x : Expr} (hx : s.Here module (.expr x)) :
    x.index < s.types.exprs.size := by
  rw [h.ready.exprs]
  exact hm.expr_lt (h.mem_nodes hx)

theorem stmt_lt (h : Equipped module s) {t : Stmt} (ht : .stmt t ∈ module.nodes) :
    t.index < s.types.stmts.size := by
  rw [h.ready.stmts]
  exact hm.stmt_lt ht

theorem of_calls (h : Equipped module s) {name : String} {args : List Expr} {d : Function}
    {ns : Namespace} (hc : s.Calls module name args d ns) : DefinedIn module d ∧ ns.Of module d := by
  obtain ⟨id, -, stored⟩ := Environment.definition_ok.1 hc.found
  have hd := h.ready.definitions _ d stored
  exact ⟨hd, .of_definition hm h.ready.table hd hc.scope⟩

theorem enter (h : Equipped module s) (hguard : config.recursionGuard = true) {name : String}
    {args : List Expr} {d : Function} {ns : Namespace} (hc : s.Calls module name args d ns)
    (hfree : Free config s d) : Equipped module (s.entered ns d) := by
  obtain ⟨hd, hns⟩ := h.of_calls hm hc
  rw [Free, hguard, Bool.true_and] at hfree
  exact ⟨⟨h.ready.table, h.ready.exprs, h.ready.stmts, h.ready.definitions⟩,
    h.sound.enter hd hns hfree⟩

theorem steps (h : Equipped module s) (hguard : config.recursionGuard = true)
    (hr : Steps config module s s') : Equipped module s' := by
  refine hr.keeps ?_ ?_ ?_ h
  · intro t action ht hc _
    refine ⟨ht.ready.act fun scope name d ha => ?_, ht.sound⟩
    cases hc <;> cases ha
    exact ht.mem_nodes (by assumption)
  · intro t name args d ns ht hc hfree
    exact ht.enter hm hguard hc hfree
  · intro t t' name args d ns ht _ ht' _ _
    have left : (t'.left t.frame d).Ready module :=
      ⟨ht'.ready.table, ht'.ready.exprs, ht'.ready.stmts, ht'.ready.definitions⟩
    exact ⟨left.act (by rintro _ _ _ ⟨⟩), ht.sound⟩

/-- Whatever a run wants to do, there is room for it. -/
theorem fits (h : Equipped module s) (hfactory : config.clientFactory ≠ "*") {action : Action}
    (hc : Cause config module s action) : action.Fits s := by
  cases hc with
  | name hn _ => exact h.expr_lt hm hn
  | member hn _ => exact h.expr_lt hm hn
  | @called _ _ _ _ _ result hn _ =>
    cases result with
    | none => trivial
    | some type => exact h.expr_lt hm hn
  | literal hn _ => exact h.expr_lt hm hn
  | assigned ha _ => exact h.declared ha.here .name
  | target ha _ => exact h.expr_lt hm ha.here
  | importModule hn ha _ =>
    -- What an import names is no star.
    exact h.declared hn (.imported ha (hm.imports _ (h.mem_nodes hn) _ ha))
  | importFactory hn ha hname => exact h.declared hn (.importedFrom ha (hname ▸ hfactory))
  | returned hn _ => exact h.stmt_lt hm (h.mem_nodes hn)
  | credited _ _ hd => exact h.stmt_lt hm (h.sound.function _ hd)
  | defined hn => exact h.declared hn .function
  | skipped => trivial
  | @argument _ _ d _ _ param _ hcalls _ hmem _ =>
    obtain ⟨scope, hs, hscope, -⟩ := (h.of_calls hm hcalls).2
    have hp : param ∈ d.params.all := by simp [Parameters.all, (List.of_mem_zip hmem).2]
    obtain ⟨symbol, hsymbol⟩ := Option.isSome_iff_exists.1 (hs.params param hp)
    exact h.ready.symbol ⟨scope, symbol, hscope ▸ hs.found, hsymbol⟩

/-- Whatever a run asks for, the table has it. -/
theorem faultless (h : Equipped module s) (hfactory : config.clientFactory ≠ "*") :
    ¬ Fault config module s e := by
  intro fault
  have table := h.ready.table
  cases fault with
  | unfit hc hn _ => exact hn (h.fits hm hfactory hc)
  | @unknown _ name error hn failed =>
    obtain ⟨symbol, hsymbol⟩ := h.declared hn .name
    obtain ⟨global, hglobal⟩ := h.sound.global
    have owner : ∃ owner, s.env.owner s.frame.ns name = .ok owner := by
      cases hi : symbol.isGlobal with
      | false => exact ⟨_, Environment.owner_ok.2 ⟨symbol, hsymbol, .inl ⟨hi, rfl⟩⟩⟩
      | true =>
        exact ⟨_, Environment.owner_ok.2 ⟨symbol, hsymbol, .inr ⟨hi, global, table ▸ hglobal, rfl⟩⟩⟩
    obtain ⟨owner, ho⟩ := owner
    cases failed.symm.trans (Environment.typeOf_ok.2 ⟨owner, ho, rfl⟩)
  | homeless _ found failed =>
    obtain ⟨id, -, stored⟩ := Environment.definition_ok.1 found
    obtain ⟨scope, hs⟩ := SymbolTable.build_function hm (h.ready.definitions _ _ stored)
    cases failed.symm.trans (Environment.definitionNamespace_ok.2
      ⟨scope.id, scope, table ▸ hs.marked, table ▸ hs.found, rfl⟩)

/-- **No run fails**, if bodies may be nested as deeply as the module has functions
that are not yet active. -/
theorem succeeds (hguard : config.recursionGuard = true) (hfactory : config.clientFactory ≠ "*")
    {bound : Nat} (h : Equipped module s)
    (room : module.functions.length ≤ bound + s.frame.active.length) :
    ¬ Fails config module (enterBody config bound) s e s' := by
  intro failed
  obtain ⟨t, t', ht, failed⟩ := failed.outside (fun h hr => h.steps hm hguard hr)
    (fun h hc hfree => h.enter hm hguard hc hfree) (fun h => h.sound.length_le) h room
  cases failed with
  | fault steps fault => exact (ht.steps hm hguard steps).faultless hm hfactory fault
  | found steps hc hn _ => exact hn ((ht.steps hm hguard steps).fits hm hfactory hc)
  | body _ _ _ hb => cases hb
  | unsigned steps hc hfree body hn _ =>
    have here := ht.steps hm hguard steps
    have after := (here.enter hm hguard hc hfree).steps hm hguard body
    obtain ⟨site, callee, keywords, hcall⟩ := hc.here
    have named := here.sound.declared (Within.part hcall rfl (.ofExpr .callee)) .name
    exact hn (after.ready.symbol named)

end Equipped

/-- **A numbered module can be analyzed with its own tables.** -/
theorem infer_succeeds (hm : module.Numbered) (hguard : config.recursionGuard = true)
    (hfactory : config.clientFactory ≠ "*") :
    ∃ state, Analysis.infer config module = .ok state := by
  have sound : Frame.Sound module {} :=
    ⟨rfl, by rintro _ ⟨⟩, by rintro _ ⟨⟩, List.nodup_nil⟩
  have ready : (Analysis.initial module).Ready module :=
    ⟨rfl, IndexTable.size_ofSize _, IndexTable.size_ofSize _, by rintro _ _ ⟨⟩⟩
  have equipped : Equipped module (Analysis.initial module) := ⟨ready, sound⟩
  have room : module.functions.length ≤ nestingBound module + ([] : List Function).length :=
    Nat.le_trans (Nat.le_succ _) (Nat.le_mul_of_pos_right _ (Nat.succ_pos _))
  cases hr : analyzeModule config module (Analysis.initial module) with
  | ok u state => exact ⟨state, Analysis.infer_ok.2 ⟨u, hr⟩⟩
  | error e s' =>
    cases equipped.succeeds hm hguard hfactory room ((module_leads (nestingBound module)).error hr)

end Inference

/-- **Analyses fail only at syntax.** Of every source that parses, the scopes can
be derived and the types inferred, also when its entry points are called: each
act finds the scope it belongs to, and the run over the module ends with an
answer. So an analysis that fails does so because the source does not parse. -/
theorem passes_agree {config : Config} (hguard : config.recursionGuard = true)
    (hfactory : config.clientFactory ≠ "*") (source : Source) :
    (∀ module, parse source = .ok module →
      ∀ program, program = module ∨ (∃ route, program = module.invokeEntryPoints route) →
        (∀ before after, program.acts = before ++ after → ∃ scope,
          (ScopeBuilder.runAll {} before).table.scope? (ScopeBuilder.runAll {} before).current
            = some scope) ∧
        ∃ state, Analysis.infer config program = .ok state) ∧
    ∀ application error, analyze config application source = .error error →
      ∃ cause, parse source = .error cause ∧ error = .malformed cause := by
  have numbered : ∀ {module}, parse source = .ok module →
      ∀ {program}, program = module ∨ (∃ route, program = module.invokeEntryPoints route) →
        program.Numbered := by
    rintro module hp program (rfl | ⟨route, rfl⟩)
    · exact numbered_of_parse hp
    · exact (numbered_of_parse hp).invokeEntryPoints route
  refine ⟨fun module hp program h => ⟨fun before _ _ => ?_, ?_⟩, ?_⟩
  · exact SymbolTable.exists_scope (ScopeBuilder.sound_start.runAll before).current
  · exact infer_succeeds (numbered hp h) hguard hfactory
  · intro application error he
    cases hp : parse source with
    | error cause =>
      refine ⟨cause, rfl, ?_⟩
      have malformed : analyze config application source = .error (.malformed cause) := by
        rw [analyze, Analysis.parse, hp]
        rfl
      cases malformed.symm.trans he
      rfl
    | ok module =>
      -- The program that is analyzed can be, which leaves no way to fail.
      obtain ⟨program, hprogram, h⟩ : ∃ program,
          Analysis.parse config application source = .ok program ∧
            (program = module ∨ ∃ route, program = module.invokeEntryPoints route) := by
        refine ⟨_, Analysis.parse_ok.2 ⟨module, hp, rfl⟩, ?_⟩
        cases application with
        | false => exact .inl rfl
        | true => exact .inr ⟨config.routeMethod, rfl⟩
      obtain ⟨state, hi⟩ := infer_succeeds (numbered hp h) hguard hfactory
      cases he.symm.trans (analyze_ok.2 ⟨program, state, hprogram, hi, rfl⟩)

/-- An entry point that calls itself, with a name that belongs to the module. -/
def recursiveRoute : Source where
  file := "main.py"
  text := "@app.route('/')\ndef f(x):\n    global y\n    y = f(x)\n    return [z for z in y]\n"

theorem recursiveRoute_agrees :
    ({} : Config).recursionGuard = true ∧ ({} : Config).clientFactory ≠ "*" ∧
    ∃ module state, parse recursiveRoute = .ok module ∧
      Analysis.infer {} (module.invokeEntryPoints "route") = .ok state := by
  have parses : (parse recursiveRoute).isOk = true := by decide +kernel
  obtain ⟨module, hp⟩ := exists_ok parses
  have agree := @passes_agree {} rfl (by decide) recursiveRoute
  obtain ⟨-, state, hi⟩ := agree.1 module hp _ (.inr ⟨"route", rfl⟩)
  exact ⟨rfl, by decide, module, state, hp, hi⟩

end SdkUsage
