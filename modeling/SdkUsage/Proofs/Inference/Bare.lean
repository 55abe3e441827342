/-
Inference does not depend on where the pieces of a program stand in the text. A state holds
functions, which have spans, so two runs are compared through `State.bare`: `Bares` says that an
operation does to the bare state what another does to the state. It has a law for
sequences and one lemma for each operation of inference. A tree without spans is what the tree is
recast to under its own names and numbers.

`Analysis.infer_recast` and `CallMap.collect_recast` put this together.
-/
import SdkUsage.Proofs.Inference.Flow
import SdkUsage.Proofs.Inference.Guard
import SdkUsage.Proofs.Scope.Recast

namespace SdkUsage

open SdkUsage.Tree

/-! ## Recast trees -/

namespace Inference

variable (c : Recast)

theorem site_recast (d : Function) :
    (d.recast c).site.index = c.stmts d.site.index := by
  cases d
  rfl

theorem name_recast (d : Function) :
    (d.recast c).name.text = c.name d.name.text := by
  cases d
  rfl

theorem body_recast (d : Function) :
    (d.recast c).body = d.body.map (Stmt.recast c) := by
  cases d
  exact recastStmts_eq _

theorem args_recast (d : Function) :
    (d.recast c).params.args = d.params.args.map (Param.recast c) := by
  obtain ⟨_, _, ⟨args, _, _, _⟩, _, _, _, _⟩ := d
  exact recastParams_eq args

theorem literal_recast (e : Expr) : (e.recast c).literal? = e.literal? := by
  cases e with
  | str _ _ kind => cases kind <;> rfl
  | _ => rfl

theorem serviceArgument_recast (args : List Expr) (keywords : List (Keyword Expr)) :
    serviceArgument? (args.map (Expr.recast c)) (keywords.map (Keyword.recast c)) =
      (serviceArgument? args keywords).map (Expr.recast c) := by
  cases args with
  | cons arg args => rfl
  | nil =>
    have named (k : Keyword Expr) : (k.recast c).name.any (·.text = "service_name") =
        k.name.any (·.text = "service_name") := by
      obtain ⟨_, name, _⟩ := k
      cases name <;> rfl
    simp only [serviceArgument?, List.map_nil, List.find?_map, Option.map_map, Function.comp_def,
      Keyword.value_recast, named]

/-- The type of a client depends on what is known about the argument that names the service. -/
theorem clientType_recast {c : Recast} {types types' : Annotations} {args : List Expr}
    {keywords : List (Keyword Expr)} (h : ∀ arg, serviceArgument? args keywords = some arg →
      types'.ofExpr? (arg.recast c) = types.ofExpr? arg) :
    clientType types' (args.map (Expr.recast c)) (keywords.map (Keyword.recast c)) =
      clientType types args keywords := by
  unfold clientType
  rw [serviceArgument_recast]
  cases ha : serviceArgument? args keywords with
  | none => rfl
  | some arg =>
    rw [Option.map_some, Option.bind_some, Option.bind_some, knownText?, knownText?,
      literal_recast, h arg ha]

theorem analyzed_recast (n : Node) :
    (n.recast c).analyzed = n.analyzed.map (Node.recast c) := by
  have children : (n.recast c).children = n.children.map (Node.recast c) := n.children_recast
  rcases n with t | e
  · cases t with
    | functionDef | classDef => rfl
    | annAssign site target annotation value =>
      cases value with
      | some value => rfl
      | none => exact children
    | _ => exact children
  · cases e with
    | lambda => rfl
    | _ => exact children

end Inference

/-! ## States without spans -/

/-- What is known about names, without spans. -/
def Environment.bare (env : Environment) : Environment :=
  { env with definitions := env.definitions.mapValues fun _ definition => definition.recast {} }

theorem SortedMap.mapValues_insert {κ α β : Type} [Key κ] [DecidableEq κ] (map : SortedMap κ α)
    (f : κ → α → β) (key : κ) (value : α) :
    (map.insert key value).mapValues f = (map.mapValues f).insert key (f key value) := by
  refine SortedMap.ext fun other => ?_
  rw [SortedMap.get?_mapValues, SortedMap.get?_insert, SortedMap.get?_insert,
    SortedMap.get?_mapValues]
  split
  · next h => rw [h]; rfl
  · rfl

namespace Environment

variable (env : Environment) (ns : Namespace) (name : String)

theorem setType_bare (type : Option Ty) :
    env.bare.setType ns name type = (env.setType ns name type).map Environment.bare := by
  unfold setType
  change (env.symbol ns.scope name >>= _) = _
  cases env.symbol ns.scope name <;> rfl

theorem register_bare (definition : Function) :
    env.bare.register ns name (definition.recast {}) =
      (env.register ns name definition).map Environment.bare := by
  unfold register
  change (env.symbol ns.scope name >>= _) = _
  cases env.symbol ns.scope name with
  | error => rfl
  | ok symbol =>
    simp only [bind, Except.bind, pure, Except.pure, Except.map, Environment.bare,
      SortedMap.mapValues_insert]

theorem definition_bare :
    env.bare.definition ns name = (env.definition ns name).map (FunctionDef.recast {}) := by
  unfold definition
  change (env.owner ns name >>= _) = _
  cases env.owner ns name with
  | error => rfl
  | ok owner =>
    cases owner with
    | none =>
      simp only [bind, Except.bind, Option.bind]
      change (env.scope ns.scope).bind _ = _
      cases env.scope ns.scope <;> rfl
    | some id =>
      simp only [bind, Except.bind, Option.bind, Environment.bare, SortedMap.get?_mapValues]
      cases env.definitions.get? (id, name) with
      | some definition => rfl
      | none =>
        simp only [Option.map_none]
        change (env.scope ns.scope).bind _ = _
        cases env.scope ns.scope <;> rfl

theorem defines_bare : env.bare.defines ns name = env.defines ns name := by
  unfold defines
  rw [definition_bare]
  cases env.definition ns name <;> rfl

theorem definitionNamespace_bare (definition : Function) :
    env.bare.definitionNamespace ns (definition.recast {}) =
      env.definitionNamespace ns definition := by
  cases definition
  rfl

end Environment

namespace Inference

/-- Where a run stands, without spans. -/
def Frame.bare (frame : Frame) : Frame :=
  ⟨frame.ns, frame.function.map (FunctionDef.recast {}), frame.active.map (FunctionDef.recast {})⟩

/-- The state of a run, without spans. -/
def State.bare (state : State) : State :=
  { state with env := state.env.bare, frame := state.frame.bare }

/-- `y` does to the bare state what `x` does to the state, and gives what `view` makes of its
answer. -/
def Bares {α β : Type} (view : α → β) (x : Run α) (y : Run β) : Prop :=
  ∀ s, y s.bare = match x s with
    | .ok v s' => .ok (view v) s'.bare
    | .error e s' => .error e s'.bare

namespace Bares

variable {α β γ δ : Type} {view : α → β}

theorem pure (v : α) : Bares view (pure v) (pure (view v)) := fun _ => rfl

theorem bind {look : γ → δ} {x : Run γ} {y : Run δ} {f : γ → Run α} {g : δ → Run β}
    (hx : Bares look x y) (hf : ∀ v, Bares view (f v) (g (look v))) :
    Bares view (x >>= f) (y >>= g) := by
  intro s
  have hs := hx s
  simp only [Bind.bind, EStateM.bind]
  cases hr : x s with
  | ok v s' =>
    rw [hr] at hs
    rw [hs]
    exact hf v s'
  | error e s' =>
    rw [hr] at hs
    rw [hs]

theorem forM {xs : List γ} {look : γ → δ} {f : γ → Run Unit} {g : δ → Run Unit}
    (h : ∀ x ∈ xs, Bares id (f x) (g (look x))) : Bares id (xs.forM f) ((xs.map look).forM g) := by
  induction xs with
  | nil => exact pure ()
  | cons x xs ih =>
    exact (h x List.mem_cons_self).bind fun _ => ih fun y hy => h y (List.mem_cons_of_mem x hy)

/-- A question to the state that does not look at spans. -/
theorem get {f : State → Run α} {g : State → Run β} (h : ∀ s, Bares view (f s) (g s.bare)) :
    Bares view (get >>= f) (get >>= g) :=
  fun s => h s s

end Bares

/-! ## Single steps -/

theorem note_bares (event : Event) : Bares id (note event) (note event) := fun _ => rfl

theorem ask_bares {α β : Type} {view : α → β}
    {question : Environment → Namespace → Except ScopeError α}
    {question' : Environment → Namespace → Except ScopeError β}
    (h : ∀ env ns, question' env.bare ns = (question env ns).map view) :
    Bares view (ask question) (ask question') := by
  intro s
  have asked : question' s.bare.env s.bare.frame.ns = _ := h s.env s.frame.ns
  rw [ask_eq, ask_eq, asked]
  cases question s.env s.frame.ns <;> rfl

theorem change_bares {edit edit' : Environment → Except ScopeError Environment}
    (h : ∀ env, edit' env.bare = (edit env).map Environment.bare) :
    Bares id (change edit) (change edit') := by
  intro s
  have edited : edit' s.bare.env = _ := h s.env
  rw [change_eq, change_eq, edited]
  cases edit s.env <;> rfl

theorem changeTypes_bares (edit : Annotations → Except OutOfRange Annotations) :
    Bares id (changeTypes edit) (changeTypes edit) := by
  intro s
  have edited : edit s.bare.types = edit s.types := rfl
  rw [changeTypes_eq, changeTypes_eq, edited]
  cases edit s.types <;> rfl

theorem namespaceHere_bares : Bares id namespaceHere namespaceHere := fun _ => rfl

theorem ofExpr_recast (types : Annotations) (e : Expr) :
    types.ofExpr? (e.recast {}) = types.ofExpr? e := by
  unfold Annotations.ofExpr?
  rw [Expr.index_recast]
  rfl

theorem exprType_bares (e : Expr) : Bares id (exprType e) (exprType (e.recast {})) := by
  intro s
  change EStateM.Result.ok (s.types.ofExpr? (e.recast {})) s.bare = _
  rw [ofExpr_recast]
  rfl

theorem annotate_bares (expr : Nat) (type : Option Ty) :
    Bares id (annotate expr type) (annotate expr type) :=
  (changeTypes_bares _).bind fun _ => note_bares _

theorem annotateSome_bares (expr : Nat) (type : Option Ty) :
    Bares id (annotateSome expr type) (annotateSome expr type) := by
  cases type with
  | some type => exact annotate_bares expr (some type)
  | none => exact .pure ()

theorem bindIn_bares (ns : Namespace) (name : String) (type : Option Ty) :
    Bares id (bindIn ns name type) (bindIn ns name type) :=
  (change_bares fun env => env.setType_bare ns name type).bind fun _ => note_bares _

theorem bindName_bares (name : String) (type : Option Ty) :
    Bares id (bindName name type) (bindName name type) :=
  namespaceHere_bares.bind fun ns => bindIn_bares ns name type

theorem site_self (definition : Function) :
    (definition.recast {}).site.index = definition.site.index :=
  site_recast {} definition

theorem inside_bares {ns : Namespace} {definition : Function} {body body' : Run Unit}
    (h : Bares id body body') :
    Bares id (inside ns definition body) (inside ns (definition.recast {}) body') := by
  intro s
  have entered : s.bare.entered ns (definition.recast {}) = (s.entered ns definition).bare := by
    simp only [State.entered, State.bare, Frame.enter, Frame.bare, Frame.stack, site_self,
      List.map_cons, List.map_map, Function.comp_def, Option.map_some]
  rw [inside_eq, inside_eq, entered, h]
  cases body (s.entered ns definition) <;> simp only [State.left, site_self] <;> rfl

/-! ## Calls -/

theorem passArguments_bares (ns : Namespace) (args : List Expr) (params : List (Param Expr)) :
    Bares id (passArguments ns args params)
      (passArguments ns (args.map (Expr.recast {})) (params.map (Param.recast {}))) := by
  unfold passArguments
  rw [List.zip_map]
  refine .forM fun (arg, param) _ => (exprType_bares arg).bind fun type => ?_
  cases type with
  | some type =>
    change Bares id (bindIn ns param.name.text (some type))
      (bindIn ns (param.recast {}).name.text (some type))
    rw [Param.name_recast]
    exact bindIn_bares ns param.name.text (some type)
  | none => exact .pure ()

variable {config : Config} {enter enter' : Function → Run Unit}

theorem isActive_bare (frame : Frame) (definition : Function) :
    frame.bare.isActive (definition.recast {}) = frame.isActive definition := by
  simp only [Frame.isActive, Frame.bare, List.any_map, Function.comp_def, site_self]

section

variable (he : ∀ definition, Bares id (enter definition) (enter' (definition.recast {})))

include he

theorem callFunction_bares (name : String) (args : List Expr) :
    Bares id (callFunction config enter name args)
      (callFunction config enter' name (args.map (Expr.recast {}))) := by
  have found : Bares (FunctionDef.recast {}) (ask (·.definition · name)) (ask (·.definition · name)) :=
    ask_bares fun env ns => env.definition_bare ns name
  refine found.bind fun definition => ?_
  have inner : Bares id (ask (·.definitionNamespace · definition))
      (ask (·.definitionNamespace · (definition.recast {}))) :=
    ask_bares fun env ns => by
      rw [env.definitionNamespace_bare]
      cases env.definitionNamespace ns definition <;> rfl
  refine inner.bind fun ns => .get fun s => ?_
  change Bares id _ (if config.recursionGuard && s.frame.bare.isActive (definition.recast {}) then _
    else _)
  rw [isActive_bare, site_self]
  split
  · exact (note_bares _).bind fun _ => .pure none
  · rw [args_recast]
    refine (passArguments_bares ns args definition.params.args).bind fun _ => ?_
    refine (inside_bares (he definition)).bind fun _ => .get fun s => ?_
    exact (bindName_bares name _).bind fun _ => .pure _

theorem callType_bares (func : Expr) (args : List Expr) (keywords : List (Keyword Expr)) :
    Bares id (callType config enter func args keywords)
      (callType config enter' (func.recast {}) (args.map (Expr.recast {}))
        (keywords.map (Keyword.recast {}))) := by
  refine .get fun s => ?_
  have type : s.bare.types.ofExpr? (func.recast {}) = s.types.ofExpr? func := ofExpr_recast ..
  rw [type]
  -- What is called decides by its type, and if it has none of these, by being a name.
  have named (site : Site) (name : String) : Bares id
      (if s.env.defines s.frame.ns name then callFunction config enter name args else pure none)
      (if s.bare.env.defines s.bare.frame.ns name then
        callFunction config enter' name (args.map (Expr.recast {})) else pure none) := by
    change Bares id _ (if s.env.bare.defines s.frame.ns name then _ else _)
    rw [Environment.defines_bare]
    split
    · exact callFunction_bares he name args
    · exact .pure none
  cases s.types.ofExpr? func with
  | some t =>
    cases t with
    | clientFactory =>
      change Bares id (pure (clientType s.types args keywords)) (pure (clientType s.types _ _))
      rw [clientType_recast fun arg _ => ofExpr_recast s.types arg]
      exact .pure _
    | methodRef service method => exact .pure _
    | function returns => exact .pure _
    | _ =>
      cases func with
      | name site name => exact named site name
      | _ => exact .pure none
  | none =>
    cases func with
    | name site name => exact named site name
    | _ => exact .pure none

end

/-! ## Statements -/

theorem assignedType_bares (value : Expr) :
    Bares id (assignedType value) (assignedType (value.recast {})) := by
  refine (exprType_bares value).bind fun type => ?_
  rw [literal_recast, Expr.index_recast]
  cases type with
  | some type => exact .pure _
  | none =>
    cases value.literal? with
    | some text => exact (annotate_bares _ _).bind fun _ => .pure _
    | none => exact .pure _

theorem assignTarget_bares (type : Option Ty) (target : Expr) :
    Bares id (assignTarget type target) (assignTarget type (target.recast {})) := by
  cases target with
  | name site name => exact (bindName_bares name type).bind fun _ => annotate_bares site.index type
  | _ => exact .pure ()

theorem assign_bares (targets : List Expr) (value : Expr) :
    Bares id (assign targets value) (assign (targets.map (Expr.recast {})) (value.recast {})) :=
  (assignedType_bares value).bind fun type => .forM fun target _ => assignTarget_bares type target

theorem bindImports_bares (member : String) (type : Ty) (names : List Alias) :
    Bares id (bindImports member type names) (bindImports member type (names.map (Alias.recast {}))) := by
  have bound (name : Alias) : (name.recast {}).boundName = name.boundName := by
    unfold Alias.recast
    split
    · obtain ⟨_, _, asName⟩ := name
      cases asName <;> rfl
    · rfl
  unfold bindImports
  rw [List.filter_map]
  simp only [Function.comp_def, Alias.name_recast]
  refine .forM fun name _ => ?_
  rw [bound]
  exact bindName_bares _ _

theorem credit_bares (type : Ty) : Bares id (credit type) (credit type) := by
  refine .get fun s => ?_
  have function : s.bare.frame.function = s.frame.function.map (FunctionDef.recast {}) := rfl
  cases hf : s.frame.function with
  | none =>
    simp only [hf, function, Option.map_none]
    exact .pure ()
  | some definition =>
    simp only [hf, function, Option.map_some, site_self]
    exact (changeTypes_bares _).bind fun _ => note_bares _

theorem recordReturn_bares (stmt : Nat) (value : Expr) :
    Bares id (recordReturn stmt value) (recordReturn stmt (value.recast {})) := by
  refine (exprType_bares value).bind fun type => ?_
  cases type with
  | none => exact .pure ()
  | some type =>
    exact (changeTypes_bares _).bind fun _ => (note_bares _).bind fun _ => credit_bares type

theorem define_bares (definition : Function) :
    Bares id (define definition) (define (definition.recast {})) := by
  refine namespaceHere_bares.bind fun ns => ?_
  have name : (definition.recast {}).name.text = definition.name.text := by
    cases definition
    rfl
  rw [name, site_self]
  exact (change_bares fun env => env.register_bare ns _ definition).bind fun _ => note_bares _

/-! ## Nodes -/

theorem concludeStmt_bares (t : Stmt) :
    Bares id (concludeStmt config t) (concludeStmt config (t.recast {})) := by
  cases t with
  | assign site targets value => exact assign_bares targets value
  | annAssign site target annotation value =>
    cases value with
    | some value => exact assign_bares [target] value
    | none => exact .pure ()
  | importModules site names => exact bindImports_bares _ _ names
  | importFrom site path level names =>
    simp only [Stmt.recast, concludeStmt]
    split
    · exact bindImports_bares _ _ names
    · exact .pure ()
  | functionDef definition => exact define_bares definition
  | returning site value =>
    cases value with
    | some value => exact recordReturn_bares site.index value
    | none => exact .pure ()
  | _ => exact .pure ()

section

variable (he : ∀ definition, Bares id (enter definition) (enter' (definition.recast {})))

include he

theorem concludeExpr_bares (e : Expr) :
    Bares id (concludeExpr config enter e) (concludeExpr config enter' (e.recast {})) := by
  cases e with
  | name site name =>
    have type : Bares id (ask (·.typeOf · name)) (ask (·.typeOf · name)) :=
      ask_bares fun env ns => by
        change env.typeOf ns name = _
        cases env.typeOf ns name <;> rfl
    exact type.bind fun type => annotate_bares site.index type
  | member site value attr =>
    exact (exprType_bares value).bind fun type => annotateSome_bares site.index _
  | call site func args keywords =>
    simp only [Expr.recast, concludeExpr, recastExprs_eq, recastKeywords_eq]
    refine (exprType_bares func).bind fun callee => ?_
    refine (callType_bares he func args keywords).bind fun result => ?_
    exact (note_bares _).bind fun _ => annotateSome_bares site.index result
  | _ => exact .pure ()

theorem conclude_bares (n : Node) :
    Bares id (conclude config enter n) (conclude config enter' (n.recast {})) := by
  cases n with
  | expr e => exact concludeExpr_bares he e
  | stmt t => exact concludeStmt_bares t

theorem visit_bares (n : Node) :
    Bares id (visit config enter n) (visit config enter' (n.recast {})) := by
  rw [visit_eq, visit_eq, analyzed_recast]
  refine Bares.bind (.forM fun child hc => visit_bares child) fun _ => conclude_bares he n
termination_by n.rank
decreasing_by exact Node.rank_lt_of_mem_children (Node.mem_children_of_mem_analyzed hc)

theorem visitAll_bares (ts : List Stmt) :
    Bares id (visitAll config enter ts) (visitAll config enter' (ts.map (Stmt.recast {}))) :=
  .forM fun t _ => visit_bares he (.stmt t)

end

theorem enterBody_bares (bound : Nat) (definition : Function) :
    Bares id (enterBody config bound definition) (enterBody config bound (definition.recast {})) := by
  induction bound generalizing definition with
  | zero => exact fun _ => rfl
  | succ bound ih =>
    have body : (definition.recast {}).body = definition.body.map (Stmt.recast {}) := by
      cases definition
      exact recastStmts_eq _
    simp only [enterBody, body]
    exact visitAll_bares ih definition.body

theorem analyzeModule_bares (module : Module) :
    Bares id (analyzeModule config module) (analyzeModule config (module.recast {})) := by
  have bound : nestingBound (module.recast {}) = nestingBound module := by
    unfold nestingBound
    rw [Module.functions_recast, List.length_map]
    rfl
  unfold analyzeModule
  rw [bound]
  have start : Bares id
      (modify fun s : State => { s with frame := { s.frame with ns := .module, function := none } })
      (modify fun s : State => { s with frame := { s.frame with ns := .module, function := none } }) :=
    fun _ => rfl
  exact start.bind fun _ => visitAll_bares (enterBody_bares _) module.body

end Inference

/-! ## Analysis -/

/-- A run over a module without spans ends in the state without spans. -/
theorem Analysis.infer_recast (config : Config) (module : Module) :
    infer config (module.recast {}) = (infer config module).map Inference.State.bare := by
  have run : Inference.Bares id (Inference.analyzeModule config module)
      (Inference.analyzeModule config (module.recast {})) := Inference.analyzeModule_bares module
  have start : Inference.State.start (.build (module.recast {})) (module.recast {}).expressions
      (module.recast {}).statements
      = Inference.State.bare (.start (.build module) module.expressions module.statements) := by
    rw [SymbolTable.build_recast]
    rfl
  unfold infer
  simp only [start, run _]
  cases Inference.analyzeModule config module _ <;> rfl

theorem CallMap.collect_recast (types : Annotations) (module : Module) :
    collect types (module.recast {}) = collect types module := by
  have node (calls : CallMap) (n : Node) : addNode types calls (n.recast {}) = addNode types calls n := by
    have known : types.ofNode? (n.recast {}) = types.ofNode? n := by
      cases n with
      | expr e => exact Inference.ofExpr_recast types e
      | stmt t => exact congrArg types.stmts.get? t.index_recast
    unfold addNode
    rw [known]
  simp only [collect, Module.nodes_recast, List.foldl_map, node]

end SdkUsage
