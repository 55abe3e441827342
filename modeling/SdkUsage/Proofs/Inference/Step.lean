/-
What can happen in a run of inference, said once.

A run is a sequence of actions. `Cause` has a rule for every reason for which
an action is done, with what the state says at that moment; `Steps` is a run,
in which the analysis of a function's body stands between brackets: it begins
where the function is called and the run is afterwards where it was before.

A property of all states of a run is shown with `Steps.keeps`: no action breaks
it, and neither does going into a function or coming back.
-/
import SdkUsage.Inference.Visit
import SdkUsage.Proofs.Tree.Region

namespace SdkUsage.Inference

open SdkUsage.Tree

/-! ## Actions -/

/-- A change of what is known. -/
inductive Action where
  /-- An expression gets a type or loses it. -/
  | annotate (expr : Nat) (type : Option Ty)
  /-- A `return` gets the type of its value. -/
  | record (stmt : Nat) (type : Ty)
  /-- A function gets the type of what it returns. -/
  | credit (definition : Nat) (type : Ty)
  /-- A name of a scope gets a type or loses it. -/
  | bind (scope : Nat) (name : String) (type : Option Ty)
  /-- A name of a scope gets a function. -/
  | define (scope : Nat) (name : String) (definition : Function)
  /-- A call is found to have a type, which it gets, or to have none. -/
  | call (expr : Nat) (callee result : Option Ty)
  /-- A call is passed over. -/
  | skip (definition : Nat)

namespace Action

/-- What the trace keeps of an action, newest first. -/
def events : Action → List Event
  | annotate expr type => [.annotated expr type]
  | record stmt type => [.returned stmt type]
  | credit definition type => [.credited definition type]
  | bind scope name type => [.bound scope name type]
  | define scope name definition => [.defined scope name definition.site.index]
  | call expr callee (some type) =>
    [.annotated expr (some type), .called expr callee (some type)]
  | call expr callee none => [.called expr callee none]
  | skip definition => [.skipped definition]

/-- Whether an action concludes a call. -/
def isCall : Action → Bool
  | call .. => true
  | _ => false

/-- The environment after an action. -/
def onEnv (env : Environment) : Action → Environment
  | bind scope name (some type) => { env with types := env.types.insert (scope, name) type }
  | bind scope name none => { env with types := env.types.erase (scope, name) }
  | define scope name definition =>
    { env with definitions := env.definitions.insert (scope, name) definition }
  | _ => env

/-- The types of nodes after an action. -/
def onTypes (types : Annotations) : Action → Annotations
  | annotate expr type => { types with exprs := types.exprs.put expr type }
  | record stmt type => { types with stmts := types.stmts.put stmt (some type) }
  | credit definition type => { types with stmts := types.stmts.put definition (some type) }
  | call expr _ (some type) => { types with exprs := types.exprs.put expr (some type) }
  | _ => types

/-- The tables have what an action changes. -/
def Fits (state : State) : Action → Prop
  | annotate expr _ => expr < state.types.exprs.size
  | record stmt _ => stmt < state.types.stmts.size
  | credit definition _ => definition < state.types.stmts.size
  | bind scope name _ => ∃ symbol, state.env.symbol scope name = .ok symbol
  | define scope name _ => ∃ symbol, state.env.symbol scope name = .ok symbol
  | call expr _ (some _) => expr < state.types.exprs.size
  | call _ _ none => True
  | skip _ => True

/-- No action touches the table of scopes. -/
@[simp] theorem onEnv_table (env : Environment) (action : Action) :
    (action.onEnv env).table = env.table := by
  unfold onEnv
  split <;> rfl

/-- A name that is bound has the type it is bound to, and others keep theirs. -/
theorem get?_bind (env : Environment) (scope : Nat) (name : String) (type : Option Ty)
    (key : Nat × String) :
    ((bind scope name type).onEnv env).types.get? key =
      if key = (scope, name) then type else env.types.get? key := by
  cases type with
  | none => exact SortedMap.get?_erase ..
  | some type => exact SortedMap.get?_insert ..

@[simp] theorem definitions_bind (env : Environment) (scope : Nat) (name : String)
    (type : Option Ty) :
    ((bind scope name type).onEnv env).definitions = env.definitions := by
  cases type <;> rfl

/-- A name that is defined has the function it is defined as, and others keep theirs. -/
theorem get?_define (env : Environment) (scope : Nat) (name : String) (definition : Function)
    (key : Nat × String) :
    ((define scope name definition).onEnv env).definitions.get? key =
      if key = (scope, name) then some definition else env.definitions.get? key :=
  SortedMap.get?_insert ..

/-- No action changes how many expressions there is room for. -/
@[simp] theorem size_onTypes_exprs (types : Annotations) (action : Action) :
    (action.onTypes types).exprs.size = types.exprs.size := by
  unfold onTypes
  split <;> simp

/-- No action changes how many statements there is room for. -/
@[simp] theorem size_onTypes_stmts (types : Annotations) (action : Action) :
    (action.onTypes types).stmts.size = types.stmts.size := by
  unfold onTypes
  split <;> simp

end Action

namespace State

/-- The state after an action. -/
def act (state : State) (action : Action) : State where
  env := action.onEnv state.env
  types := action.onTypes state.types
  frame := state.frame
  trace := action.events ++ state.trace

/-- The state at the start of a body. -/
def entered (state : State) (ns : Namespace) (definition : Function) : State where
  env := state.env
  types := state.types
  frame := state.frame.enter ns definition
  trace := .entered definition.site.index ns.scope (state.frame.enter ns definition).stack ::
    state.trace

/-- The state after a body. -/
def left (state : State) (caller : Frame) (definition : Function) : State where
  env := state.env
  types := state.types
  frame := caller
  trace := .left definition.site.index :: state.trace

/-- What a caller binds the called name to: the type of the function. -/
def signature (state : State) (caller : Frame) (name : String) (definition : Function) : Action :=
  .bind caller.ns.scope name (state.types.stmts.get? definition.site.index)

/-- The state of the caller after a body. -/
def resumed (state : State) (caller : Frame) (name : String) (definition : Function) : State :=
  (state.left caller definition).act (state.signature caller name definition)

variable (state : State)

@[simp] theorem act_env (action : Action) : (state.act action).env = action.onEnv state.env := rfl

@[simp] theorem resumed_types (caller : Frame) (name : String) (d : Function) :
    (state.resumed caller name d).types = state.types := by
  unfold resumed signature
  cases state.types.stmts.get? d.site.index <;> rfl

end State

/-! ## Where a run stands -/

/-- The statements that are analyzed in a frame. -/
def Frame.body (frame : Frame) (module : Module) : List Stmt :=
  match frame.function with
  | some definition => definition.body
  | none => module.body

namespace State

variable (module : Module) (state : State)

/-- A node stands in the statements that are being analyzed. -/
def Here (node : Node) : Prop := Within (state.frame.body module) node

theorem Here.of_frame {module : Module} {s t : State} {node : Node} (h : s.Here module node)
    (hf : t.frame = s.frame) : t.Here module node := by
  unfold Here at h ⊢
  rwa [hf]

/-- Where no function is analyzed, the module is. -/
theorem here_iff {module : Module} {s : State} {node : Node} (hf : s.frame.function = none) :
    s.Here module node ↔ Within module.body node := by
  rw [Here, Frame.body, hf]

/-- Something is known to be of a type. -/
inductive Known (type : Ty) : Prop
  | expr {i} : state.types.exprs.get? i = some type → Known type
  | stmt {i} : state.types.stmts.get? i = some type → Known type
  | name {key} : state.env.types.get? key = some type → Known type

/-- A value is assigned to a target here. -/
inductive Assigns (target value : Expr) : Prop
  | plain {site targets} : state.Here module (.stmt (.assign site targets value)) →
    target ∈ targets → Assigns target value
  | annotated {site hint} : state.Here module (.stmt (.annAssign site target hint (some value))) →
    Assigns target value

theorem Assigns.of_frame {module : Module} {s t : State} {target value : Expr}
    (h : s.Assigns module target value) (hf : t.frame = s.frame) : t.Assigns module target value := by
  cases h with
  | plain hn ht => exact .plain (hn.of_frame hf) ht
  | annotated hn => exact .annotated (hn.of_frame hf)

/-- A function is called here by name, and its body has a namespace. -/
structure Calls (name : String) (args : List Expr) (definition : Function) (ns : Namespace) :
    Prop where
  here : ∃ site callee keywords,
    state.Here module (.expr (.call site (.name callee name) args keywords))
  found : state.env.definition state.frame.ns name = .ok definition
  scope : state.env.definitionNamespace state.frame.ns definition = .ok ns

end State

/-! ## Reasons -/

/-- How a call gets its type, or gets none. `callee` is the type of what is
called. -/
inductive Outcome (state : State) (args : List Expr) (keywords : List (Keyword Expr)) :
    Expr → (callee result : Option Ty) → Prop
  | client {func} : state.types.ofExpr? func = some .clientFactory →
    Outcome state args keywords func (some .clientFactory) (clientType state.types args keywords)
  | method {func service method} : state.types.ofExpr? func = some (.methodRef service method) →
    Outcome state args keywords func (some (.methodRef service method))
      (some (.invocation service method))
  | signature {func returns} : state.types.ofExpr? func = some (.function returns) →
    Outcome state args keywords func (some (.function returns)) (some returns)
  | body {site name callee definition} :
    Outcome state args keywords (.name site name) callee
      (returnType (state.types.stmts.get? definition))
  | nothing {func callee} : Outcome state args keywords func callee none

/-- A function may be entered: with the recursion guard it is not active. -/
def Free (config : Config) (state : State) (definition : Function) : Prop :=
  (config.recursionGuard && state.frame.isActive definition) = false

/-- Why an action is done. -/
inductive Cause (config : Config) (module : Module) (state : State) : Action → Prop
  | name {site id type} : state.Here module (.expr (.name site id)) →
    state.env.typeOf state.frame.ns id = .ok type → Cause config module state
      (.annotate site.index type)
  | member {site value attr type} : state.Here module (.expr (.member site value attr)) →
    memberType config attr.text (state.types.ofExpr? value) = some type →
    Cause config module state (.annotate site.index (some type))
  | called {site func args keywords callee result} :
    state.Here module (.expr (.call site func args keywords)) →
    Outcome state args keywords func callee result →
    Cause config module state (.call site.index callee result)
  | literal {value text} : state.Here module (.expr value) → value.literal? = some text →
    Cause config module state (.annotate value.index (some (.stringLiteral text)))
  | assigned {site id value type} : state.Assigns module (.name site id) value →
    (∀ t ∈ type, state.Known t) → Cause config module state (.bind state.frame.ns.scope id type)
  | target {site id value type} : state.Assigns module (.name site id) value →
    (∀ t ∈ type, state.Known t) → Cause config module state (.annotate site.index type)
  | importModule {site names a} : state.Here module (.stmt (.importModules site names)) →
    a ∈ names → a.name = config.sdkModule →
    Cause config module state (.bind state.frame.ns.scope a.boundName (some .moduleHandle))
  | importFactory {site names a} :
    state.Here module (.stmt (.importFrom site (some config.sdkModule) 0 names)) →
    a ∈ names → a.name = config.clientFactory →
    Cause config module state (.bind state.frame.ns.scope a.boundName (some .clientFactory))
  | returned {site value type} : state.Here module (.stmt (.returning site (some value))) →
    state.types.ofExpr? value = some type → Cause config module state (.record site.index type)
  | credited {site value type definition} :
    state.Here module (.stmt (.returning site (some value))) →
    state.types.ofExpr? value = some type → state.frame.function = some definition →
    Cause config module state (.credit definition.site.index (.function type))
  | defined {definition} : state.Here module (.stmt (.functionDef definition)) →
    Cause config module state (.define state.frame.ns.scope definition.name.text definition)
  | skipped {name args definition ns} : state.Calls module name args definition ns →
    config.recursionGuard = true → state.frame.isActive definition = true →
    Cause config module state (.skip definition.site.index)
  | argument {name args definition ns arg param type} :
    state.Calls module name args definition ns → Free config state definition →
    (arg, param) ∈ args.zip definition.params.args → state.types.ofExpr? arg = some type →
    Cause config module state (.bind ns.scope param.name.text (some type))

/-- Why a run cannot go on: there is no room for what it wants to do, or the table
lacks what it asks for. -/
inductive Fault (config : Config) (module : Module) (state : State) : InferenceError → Prop
  | unfit {action error} : Cause config module state action → ¬ action.Fits state →
    error ≠ .exhausted → Fault config module state error
  | unknown {site id error} : state.Here module (.expr (.name site id)) →
    state.env.typeOf state.frame.ns id = .error error → Fault config module state (.scope error)
  | homeless {site callee name args keywords definition error} :
    state.Here module (.expr (.call site (.name callee name) args keywords)) →
    state.env.definition state.frame.ns name = .ok definition →
    state.env.definitionNamespace state.frame.ns definition = .error error →
    Fault config module state (.scope error)

/-! ## Runs -/

/-- Actions one after another, with no call among them. -/
inductive Acts (config : Config) (module : Module) : State → State → Prop
  | refl (s) : Acts config module s s
  | step {s s' action} : Acts config module s s' → Cause config module s' action →
    action.isCall = false → action.Fits s' → Acts config module s (s'.act action)

/-- A run from a state to a state. -/
inductive Steps (config : Config) (module : Module) : State → State → Prop
  | refl (s) : Steps config module s s
  | step {s s' action} : Steps config module s s' → Cause config module s' action →
    action.Fits s' → Steps config module s (s'.act action)
  | call {s s₁ s₂ name args definition ns} : Steps config module s s₁ →
    s₁.Calls module name args definition ns → Free config s₁ definition →
    Steps config module (s₁.entered ns definition) s₂ →
    (s₂.signature s₁.frame name definition).Fits s₂ →
    Steps config module s (s₂.resumed s₁.frame name definition)

namespace Acts

variable {config : Config} {module : Module} {s s' s'' : State}

theorem trans (h : Acts config module s s') (h' : Acts config module s' s'') :
    Acts config module s s'' := by
  induction h' with
  | refl => exact h
  | step _ hc hn hf ih => exact ih.step hc hn hf

theorem one {action : Action} (hc : Cause config module s action) (hn : action.isCall = false)
    (hf : action.Fits s) : Acts config module s (s.act action) :=
  (refl s).step hc hn hf

theorem steps (h : Acts config module s s') : Steps config module s s' := by
  induction h with
  | refl => exact .refl _
  | step _ hc _ hf ih => exact ih.step hc hf

theorem frame_eq (h : Acts config module s s') : s'.frame = s.frame := by
  induction h with
  | refl => rfl
  | step _ _ _ _ ih => exact ih

/-- What no action breaks holds after actions. -/
theorem keeps {P : State → Prop}
    (act : ∀ {s action}, P s → Cause config module s action → action.isCall = false →
      action.Fits s → P (s.act action))
    (h : Acts config module s s') (hp : P s) : P s' := by
  induction h with
  | refl => exact hp
  | step _ hc hn hf ih => exact act ih hc hn hf

end Acts

namespace Steps

variable {config : Config} {module : Module} {s s' s'' : State}

theorem trans (h : Steps config module s s') (h' : Steps config module s' s'') :
    Steps config module s s'' := by
  induction h' with
  | refl _ => exact h
  | step _ hc hf ih => exact (ih h).step hc hf
  | call _ hc hg hb hf ih _ => exact (ih h).call hc hg hb hf

/-- One action is a run. -/
theorem one {action : Action} (hc : Cause config module s action) (hf : action.Fits s) :
    Steps config module s (s.act action) :=
  (refl s).step hc hf

/-- A run ends in the frame it began in. -/
theorem frame_eq (h : Steps config module s s') : s'.frame = s.frame := by
  induction h with
  | refl _ => rfl
  | step _ _ _ ih => exact ih
  | call _ _ _ _ _ ih _ => exact ih

theorem here (h : Steps config module s s') {node : Node} (hn : s.Here module node) :
    s'.Here module node :=
  hn.of_frame h.frame_eq

/-- **What no action breaks holds throughout a run.** A property has to survive
single actions, going into a function, and coming back to the caller. -/
theorem keeps {P : State → Prop}
    (act : ∀ {s action}, P s → Cause config module s action → action.Fits s → P (s.act action))
    (enter : ∀ {s name args d ns}, P s → s.Calls module name args d ns → Free config s d →
      P (s.entered ns d))
    (resume : ∀ {s s' name args d ns}, P s → s.Calls module name args d ns → P s' →
      s'.frame = s.frame.enter ns d → (s'.signature s.frame name d).Fits s' →
      P (s'.resumed s.frame name d))
    (h : Steps config module s s') (hp : P s) : P s' := by
  induction h with
  | refl _ => exact hp
  | step _ hc hf ih => exact act (ih hp) hc hf
  | call _ hc hg hb hf ih ih' =>
    exact resume (ih hp) hc (ih' (enter (ih hp) hc hg)) hb.frame_eq hf

end Steps

end SdkUsage.Inference
