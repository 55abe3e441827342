/-
What an analysis as an application adds. The run over an application has a call
behind each definition of an entry point, and goes otherwise through the same
statements as the run over the module. If entry points and the functions that serve
them stay apart from the rest of the program, the two runs agree on the rest, so that
whatever the plain analysis reports is reported of the application as well.

Without that it need not be: the call of an entry point comes before calls that the
program itself has of it, and these then go by what the first one found.
-/
import SdkUsage.Proofs.Inference.Away
import SdkUsage.Proofs.Inference.Redefinition

namespace SdkUsage

open SdkUsage.Tree SdkUsage.Inference

/-- Functions with these names serve the entry points only. The entry points are
among them, the program's own code does not speak of them, and they call none of the
functions of the program's own. -/
structure Tree.Module.Separates (names : List String) (route : String) (module : Module) : Prop where
  entry : ∀ d, Within module.body (.stmt (.functionDef d)) → d.isEntryPoint route = true →
    d.name.text ∈ names
  own : ∀ site id, Code names module false (.expr (.name site id)) → id ∉ names
  apart : module.KeepsApart names

namespace Inference

variable {config : Config} {names : List String} {module application : Module} {frame : Frame}
  {enter enter' : Function → Run Unit}

/-! ## Calls of entry points -/

/-- The call of an entry point is analyzed as a name and what is decided. -/
theorem visit_callOf {d : Function} {c : EntryPoint.Counts} {s s' : State} {u : Unit}
    (hr : visit config enter (.stmt (EntryPoint.callOf d c)) s = .ok u s') :
    ∃ type callee result s₁ s₂, s.env.typeOf s.frame.ns d.name.text = .ok type ∧
      (Action.annotate c.expressions type).Fits s ∧ s₁ = s.act (.annotate c.expressions type) ∧
      Decision config enter [] [] s₁ (.name ⟨d.name.span, c.expressions⟩ d.name.text) result s₂ ∧
      s' = s₂.act (.call (c.expressions + 1) callee result) := by
  rw [visit_eq] at hr
  obtain ⟨_, _, hparts, hnothing⟩ := bind_ok.1 hr
  obtain ⟨-, rfl⟩ := pure_ok.1 hnothing
  obtain ⟨_, _, hcall, hrest⟩ := bind_ok.1 hparts
  obtain ⟨-, rfl⟩ := pure_ok.1 hrest
  rw [visit_eq] at hcall
  obtain ⟨_, _, hparts', hconclude⟩ := bind_ok.1 hcall
  obtain ⟨_, _, hname, hrest'⟩ := bind_ok.1 hparts'
  obtain ⟨-, rfl⟩ := pure_ok.1 hrest'
  obtain ⟨type, htype, hfits, rfl⟩ := visit_name hname
  obtain ⟨result, s₂, hd, -, rfl⟩ := concludeCall_decision hconclude
  exact ⟨type, _, result, _, s₂, htype, hfits, rfl, hd, rfl⟩

section

variable (hm : module.Numbered) (apart : module.KeepsApart names)
  (he : Enters config application enter)

include hm apart he

/-- A function with one of the names may be called in the module without a trace in
the program's own code. -/
theorem Decision.agree {site : Site} {name : String} {result : Option Ty} {s t t' : State}
    (hd : Decision config enter [] [] t (.name site name) result t') (hn : name ∈ names)
    (ht : Agree names module s t) (hf : t.frame.ns = .module) : Agree names module s t' := by
  cases hd with
  | client | method | signature | unknown => exact ht
  | skipped => exact ht.act_away trivial
  | @body _ _ g ns s₁ s₂ _ hg hns _ hp hb _ =>
    obtain ⟨-, rfl⟩ := pure_ok.1 hp
    -- The function stands in the module, so it is on the side of its name.
    have side : Side names module true g := by
      obtain ⟨id, ho, hg⟩ := Environment.definition_ok.1 hg
      rw [hf] at ho
      have root : id = SymbolTable.root := by
        rcases Environment.owner_eq ho with rfl | rfl <;> rfl
      rw [root, ht.env.definitions _ _ .module] at hg
      obtain ⟨rfl, hcode⟩ := ht.env.own _ _ g .module hg
      have side := hcode.side
      rwa [decide_eq_true hn] at side
    have after := (he rfl hb).away apart hm (.enter ht side hns)
    have left : Agree names module s (s₂.left t.frame g) := ⟨after.agree.env, after.agree.nodes⟩
    refine left.act_away fun _ => ⟨?_, hn⟩
    rw [hf]
    rfl

theorem callOf_agree {d : Function} {c : EntryPoint.Counts} {s t t' : State} {u : Unit}
    (hd : d.name.text ∈ names) (hc : module.expressions ≤ c.expressions)
    (ht : Agree names module s t) (hf : t.frame.ns = .module)
    (hr : visit config enter (.stmt (EntryPoint.callOf d c)) t = .ok u t') :
    Agree names module s t' ∧ t'.frame = t.frame := by
  obtain ⟨type, callee, result, t₁, t₂, -, -, rfl, decided, rfl⟩ := visit_callOf hr
  -- The numbers of the call are not those of nodes of the module.
  have fresh : ∀ i, module.expressions ≤ i →
      ∀ e, Code names module false (.expr e) → e.index ≠ i :=
    fun i hi e he => Nat.ne_of_lt (Nat.lt_of_lt_of_le (hm.expr_lt he.mem_nodes) hi)
  have named : Agree names module s (t.act (.annotate c.expressions type)) :=
    ht.act_away (fresh _ hc)
  have called := decided.agree hm apart he hd named hf
  exact ⟨called.act_away (fresh _ (Nat.le_succ_of_le hc)), decided.frame_eq⟩

end

/-! ## Statements with calls -/

/-- Of a compound statement only the parts are analyzed, and of a class nothing. -/
theorem visit_compound {t : Stmt} (h : t.isCompound = true) :
    visit config enter (.stmt t) =
      (if (Node.stmt t).opensScope then [] else t.children).forM (visit config enter) := by
  rw [visit_eq]
  cases t <;> first | exact bind_pure_unit | cases h

section

variable (hm : module.Numbered) (separate : module.Separates names config.routeMethod)
  (hf : frame.Own names module) (hns : frame.ns = .module)
  (henter : ∀ d frame, Side names module false d → frame.Own names module →
    AgreesUnit names module frame (enter d) (enter' d))
  (he : Enters config application enter')

include hm separate hf hns henter he

/-- **Calls of entry points keep two runs in agreement** on the program's own code. -/
theorem extends_agrees {old new : List Node} {c c' : EntryPoint.Counts}
    (h : EntryPoint.Extends config.routeMethod old new c c')
    (hc : module.expressions ≤ c.expressions) (hw : ∀ n ∈ old, Within module.body n) :
    AgreesUnit names module frame (old.forM (visit config enter))
      (new.forM (visit config enter')) := by
  induction h with
  | refl c _ =>
    exact .forM fun n hn => visit_agrees hm separate.own hf henter (.of_within (hw n hn))
  | append h _ ih ih' =>
    rw [List.forM_eq_forM, List.forM_append, List.forM_append]
    refine .bind (ih hc fun n hn => hw n (List.mem_append_left _ hn)) fun _ _ => ?_
    exact ih' (Nat.le_trans hc h.grown.exprs.le) fun n hn => hw n (List.mem_append_right _ hn)
  | @stmt t t' _ _ hk _ ih =>
    have within := hw (.stmt t) List.mem_cons_self
    have whole : AgreesUnit names module frame (visit config enter (.stmt t))
        (visit config enter' (.stmt t')) := by
      rw [visit_compound hk.compound, visit_compound hk.compound', hk.opensScope]
      cases ho : (Node.stmt t).opensScope with
      | true => exact .pure trivial
      | false => exact ih hc fun n hn => within.part ho (Node.mem_children.1 hn)
    exact .bind whole fun _ _ => .pure trivial
  | @call d c hd =>
    have within := hw (.stmt (.functionDef d)) List.mem_cons_self
    refine .bind (visit_agrees hm separate.own hf henter (.of_within within)) fun _ _ => ?_
    intro s t _ _ s' t' hs hr hr'
    obtain ⟨-, rfl⟩ := pure_ok.1 hr
    obtain ⟨_, _, hcall, hrest⟩ := bind_ok.1 hr'
    obtain ⟨-, rfl⟩ := pure_ok.1 hrest
    obtain ⟨agree, same⟩ := callOf_agree hm separate.apart he (separate.entry d within hd) hc
      hs.agree (by rw [hs.stands', hns]) hcall
    exact ⟨rfl, trivial, agree, hs.stands, same.trans hs.stands'⟩

end

/-! ## Whole runs -/

theorem Agree.start (names : List String) (route : String) (module : Module) :
    Agree names module (Analysis.initial module)
      (Analysis.initial (module.invokeEntryPoints route)) where
  env :=
    { table := rfl
      unread := SymbolTable.unread_build_invokeEntryPoints route module
      types := fun _ _ _ _ => rfl
      definitions := fun _ _ _ => rfl
      own := by rintro _ _ _ _ ⟨⟩
      known := by rintro _ _ _ ⟨⟩ }
  nodes := by
    have none : ∀ size i : Nat, (IndexTable.ofSize size : IndexTable Ty).get? i = none :=
      fun size i => IndexTable.get?_ofSize size i
    refine ⟨fun e _ => ?_, fun t _ => ?_, fun i type h => ?_, fun i type h => ?_⟩
    · exact (none _ _).trans (none _ _).symm
    · exact (none _ _).trans (none _ _).symm
    · cases (none _ _).symm.trans h
    · cases (none _ _).symm.trans h

theorem visitAll_eq (stmts : List Stmt) :
    visitAll config enter stmts = (stmtNodes stmts).forM (visit config enter) :=
  List.forM_map.symm

/-- **The runs over a module and over the application agree on the program's own
code.** -/
theorem infer_agree (hm : module.Numbered) (separate : module.Separates names config.routeMethod)
    {state state' : State} (h : Analysis.infer config module = .ok state)
    (h' : Analysis.infer config (module.invokeEntryPoints config.routeMethod) = .ok state') :
    Agree names module state state' := by
  obtain ⟨_, hr⟩ := Analysis.infer_ok.1 h
  obtain ⟨_, hr'⟩ := Analysis.infer_ok.1 h'
  change visitAll config _ module.body (Analysis.initial module) = _ at hr
  change visitAll config _ (module.invokeEntryPoints config.routeMethod).body
    (Analysis.initial (module.invokeEntryPoints config.routeMethod)) = _ at hr'
  rw [visitAll_eq] at hr hr'
  have extended := EntryPoint.ofStmts_extends config.routeMethod module.body
    ⟨module.expressions, module.statements⟩
  have own : (Analysis.initial module).frame.Own names module := ⟨rfl, by rintro _ ⟨⟩⟩
  have agrees := extends_agrees hm separate own rfl
    (fun d frame hd hf => enterBody_agrees hm separate.own (nestingBound module)
      (nestingBound (module.invokeEntryPoints config.routeMethod)) hd hf)
    (enterBody_steps config (module.invokeEntryPoints config.routeMethod) _) extended
    (Nat.le_refl _) fun n hn => by
      obtain ⟨t, ht, rfl⟩ := mem_stmtNodes.1 hn
      exact .stmt ht
  exact (agrees _ _ _ _ _ _ ⟨.start names config.routeMethod module, rfl, rfl⟩ hr hr').2.2.agree

/-- What the first run reports of a node is reported by the second one. -/
theorem AgreeTypes.ofNode?_eq (hm : module.Numbered) {types types' : Annotations}
    (h : AgreeTypes names module types types') {node : Node} {type : Ty}
    (hn : node ∈ module.nodes) (ht : types.ofNode? node = some type) :
    types'.ofNode? node = some type := by
  cases node with
  | expr e =>
    obtain ⟨e', he', hi⟩ := h.onlyExprs e.index type ht
    cases hm.expr_eq he'.mem_nodes hn hi
    exact (h.exprs e he').trans ht
  | stmt t =>
    obtain ⟨t', ht', hi⟩ := h.onlyStmts t.index type ht
    cases hm.stmt_eq ht'.1.mem_nodes hn hi
    exact (h.stmts t ht').trans ht

end Inference

/-- A node of a module is in the application, as far as types go by its number. -/
theorem EntryPoint.exists_node (route : String) {module : Module} {node : Node}
    (hn : node ∈ module.nodes) :
    ∃ node' ∈ (module.invokeEntryPoints route).nodes,
      ∀ types : Annotations, types.ofNode? node' = types.ofNode? node := by
  have grown := (ofStmts_extends route module.body ⟨module.expressions, module.statements⟩).grown
  cases node with
  | expr e =>
    have number := grown.exprs.mem (List.mem_filterMap.2 ⟨_, hn, rfl⟩)
    obtain ⟨node', hn', hi⟩ := List.mem_filterMap.1 number
    cases node' with
    | stmt t => cases hi
    | expr e' => exact ⟨.expr e', hn', fun types => congrArg types.exprs.get? (Option.some.inj hi)⟩
  | stmt t =>
    have number := grown.stmts.mem (List.mem_filterMap.2 ⟨_, hn, rfl⟩)
    obtain ⟨node', hn', hi⟩ := List.mem_filterMap.1 number
    cases node' with
    | expr e => cases hi
    | stmt t' => exact ⟨.stmt t', hn', fun types => congrArg types.stmts.get? (Option.some.inj hi)⟩

/-- **An application that separates its entry points only adds invocations.** Let the
entry points, and the functions that serve them, be apart from the rest of the
program. Then what the plain analysis reports is reported of the application, too. -/
theorem separate_application_keeps_reports {config : Config} {source : Source} {module : Module}
    {names : List String} {calls calls' : CallMap} {service method : String}
    (hp : parse source = .ok module) (separate : module.Separates names config.routeMethod)
    (h : analyze config false source = .ok calls) (h' : analyze config true source = .ok calls')
    (hr : method ∈ calls.methods service) : method ∈ calls'.methods service := by
  obtain ⟨_, state, hparse, hi, rfl⟩ := analyze_ok.1 h
  obtain ⟨_, state', hparse', hi', rfl⟩ := analyze_ok.1 h'
  obtain ⟨_, hp₁, rfl⟩ := Analysis.parse_ok.1 hparse
  obtain ⟨_, hp₂, rfl⟩ := Analysis.parse_ok.1 hparse'
  cases hp.symm.trans hp₁
  cases hp.symm.trans hp₂
  have numbered := numbered_of_parse hp
  have agree := infer_agree numbered separate hi hi'
  obtain ⟨node, hn, type⟩ := CallMap.mem_methods_collect.1 hr
  obtain ⟨node', hn', same⟩ := EntryPoint.exists_node config.routeMethod hn
  refine CallMap.mem_methods_collect.2 ⟨node', hn', ?_⟩
  rw [same]
  exact agree.nodes.ofNode?_eq numbered hn type

/-! ## Examples -/

/-- Whether `Separates` allows a node on its side, given all nodes with their sides. -/
def separatesAt (names : List String) (route : String) (sides : List (Bool × Node)) :
    Bool × Node → Bool
  | (_, .stmt (.functionDef d)) => !d.isEntryPoint route || decide (d.name.text ∈ names)
  | (false, .expr (.name _ id)) => decide (id ∉ names)
  | (true, .expr (.call _ (.name _ id) _ _)) => sides.all fun
    | (false, .stmt (.functionDef d)) => decide (d.name.text = id → id ∈ names)
    | _ => true
  | _ => true

/-- It can be checked node by node that functions serve the entry points only. -/
theorem Tree.Module.separates_of_all {names : List String} {route : String} {module : Module}
    (h : (module.sides names).all (separatesAt names route (module.sides names)) = true) :
    module.Separates names route where
  entry d hd entry := by
    have seen := List.all_eq_true.1 h _ (Code.of_within hd).mem_sides
    simpa [separatesAt, entry] using seen
  own site id hn := by simpa [separatesAt] using List.all_eq_true.1 h _ hn.mem_sides
  apart site callee id args keywords hn d hd hname := by
    have called := List.all_eq_true.1 h _ hn.mem_sides
    have defined := List.all_eq_true.1 called _ hd.mem_sides
    exact of_decide_eq_true defined hname

/-- A handler with a function that serves it, and a function of the program's own. -/
def separateHandler : Source where
  file := "main.py"
  text := "import boto3\ndef own(c):\n    c.m()\ndef render(c):\n    c.send()\n"
    ++ "@app.route('/')\ndef index():\n    render(boto3.client('sqs'))\n"
    ++ "own(boto3.client('s3'))\n"

theorem separateHandler_keeps_reports :
    ∃ calls calls', analyze {} false separateHandler = .ok calls ∧
      analyze {} true separateHandler = .ok calls' ∧ "m" ∈ calls.methods "s3" ∧
      "m" ∈ calls'.methods "s3" ∧ "send" ∈ calls'.methods "sqs" := by
  have shape : (parse separateHandler).toOption.any (fun module =>
      let sides := module.sides ["index", "render"]
      sides.all (separatesAt ["index", "render"] "route" sides)) = true := by
    decide +kernel
  have plain : Reports {} false separateHandler "s3" "m" := by decide +kernel
  have served : Reports {} true separateHandler "sqs" "send" := by decide +kernel
  obtain ⟨calls, h, reported⟩ := plain
  obtain ⟨calls', h', added⟩ := served
  cases hp : parse separateHandler with
  | error =>
    rw [hp] at shape
    cases shape
  | ok module =>
    rw [hp] at shape
    have separate : module.Separates ["index", "render"] "route" :=
      Module.separates_of_all shape
    exact ⟨calls, calls', h, h', reported,
      separate_application_keeps_reports hp separate h h' reported, added⟩

/-- A handler that the program calls itself, with a client. -/
def calledHandler : Source where
  file := "main.py"
  text := "import boto3\n@app.route('/')\ndef f(c):\n    c.m()\n    return boto3\n"
    ++ "f(boto3.client('s3'))\n"

/-- **An analysis as an application may lose invocations.** -/
theorem calledHandler_loses_report :
    Reports {} false calledHandler "s3" "m" ∧ (analyze {} true calledHandler).isOk = true ∧
      ¬Reports {} true calledHandler "s3" "m" := by
  decide +kernel

/-- A function that the program and a handler both call, the handler last. -/
def sharedFunction : Source where
  file := "main.py"
  text := "import boto3\ndef send(c):\n    c.m()\nsend(boto3.client('s3'))\n"
    ++ "@app.route('/')\ndef index():\n    send(boto3.client('sqs'))\n"

/-- Nor is it enough that the program does not speak of its handlers. -/
example : Reports {} false sharedFunction "s3" "m" ∧ Reports {} true sharedFunction "sqs" "m" ∧
    ¬Reports {} true sharedFunction "s3" "m" := by
  decide +kernel

end SdkUsage
