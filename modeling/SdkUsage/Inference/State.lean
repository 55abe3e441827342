/-
The state of inference: what is known about names and nodes, and the frame,
which says where in the program the run stands. Functions are analyzed where
they are called, so frames nest; a frame holds all functions that are being
analyzed.

The trace keeps what happened, newest first. Nothing in a run depends on it;
it is there to speak about single moments of a run.
-/
import SdkUsage.Annotation
import SdkUsage.Config
import SdkUsage.Scope.Environment

namespace SdkUsage

open SdkUsage.Tree

/-- Why a run ends early: a name or a node that the tables do not have, which
means that they belong to another program, or functions nested too deeply. -/
inductive InferenceError where
  | scope (error : ScopeError)
  | range (error : OutOfRange)
  | exhausted

namespace Inference

/-- Where a run stands: the namespace, the function whose body is analyzed, and
all functions that are being analyzed, innermost first. -/
structure Frame where
  ns : Namespace := .module
  function : Option Function := none
  active : List Function := []

namespace Frame

/-- The frame inside a function. -/
def enter (frame : Frame) (ns : Namespace) (definition : Function) : Frame :=
  ⟨ns, some definition, definition :: frame.active⟩

/-- Whether a function is being analyzed. Definitions are told apart by their
number. -/
def isActive (frame : Frame) (definition : Function) : Bool :=
  frame.active.any (·.site.index = definition.site.index)

/-- The numbers of the functions that are being analyzed. -/
def stack (frame : Frame) : List Nat := frame.active.map (·.site.index)

end Frame

/-- Something that happens in a run. Expressions, statements and definitions
are given by number. -/
inductive Event where
  /-- An expression gets a type or loses it. -/
  | annotated (expr : Nat) (type : Option Ty)
  /-- A `return` gives a value of a type. -/
  | returned (stmt : Nat) (type : Ty)
  /-- A function gets the type of what it returns. -/
  | credited (definition : Nat) (type : Ty)
  /-- A name of a scope gets a type or loses it. -/
  | bound (scope : Nat) (name : String) (type : Option Ty)
  /-- A function is defined under a name of a scope. -/
  | defined (scope : Nat) (name : String) (definition : Nat)
  /-- A call is given a type, by the type of what is called. -/
  | called (expr : Nat) (callee result : Option Ty)
  /-- The analysis of a body begins, with the functions that are now active. -/
  | entered (definition scope : Nat) (stack : List Nat)
  /-- The analysis of a body ends. -/
  | left (definition : Nat)
  /-- A call of a function that is being analyzed is passed over. -/
  | skipped (definition : Nat)
  deriving DecidableEq

/-- The state of a run. -/
structure State where
  env : Environment
  types : Annotations
  frame : Frame := {}
  trace : List Event := []

/-- Nothing is known of the names of a table and of so many expressions and
statements. -/
def State.start (table : SymbolTable) (expressions statements : Nat) : State where
  env := { table }
  types := .ofSizes expressions statements

/-- A step of a run. A step that fails keeps what it did before. -/
abbrev Run := EStateM InferenceError State

/-! ## Single steps -/

/-- Remembers what happened. -/
def note (event : Event) : Run Unit :=
  modify fun state => { state with trace := event :: state.trace }

/-- A question to the environment in the current namespace. -/
def ask {α : Type} (question : Environment → Namespace → Except ScopeError α) : Run α := do
  let state ← get
  match question state.env state.frame.ns with
  | .ok answer => return answer
  | .error error => throw (.scope error)

/-- Changes the environment. -/
def change (edit : Environment → Except ScopeError Environment) : Run Unit := do
  let state ← get
  match edit state.env with
  | .ok env => set { state with env }
  | .error error => throw (.scope error)

/-- Changes the types of nodes. -/
def changeTypes (edit : Annotations → Except OutOfRange Annotations) : Run Unit := do
  let state ← get
  match edit state.types with
  | .ok types => set { state with types }
  | .error error => throw (.range error)

/-- The namespace the run stands in. -/
def namespaceHere : Run Namespace := return (← get).frame.ns

/-- The type of an expression. -/
def exprType (expr : Expr) : Run (Option Ty) := return (← get).types.ofExpr? expr

/-- Gives an expression a type or removes it. -/
def annotate (expr : Nat) (type : Option Ty) : Run Unit := do
  changeTypes (·.annotateExpr expr type)
  note (.annotated expr type)

/-- Gives an expression a type, if there is one. -/
def annotateSome (expr : Nat) : Option Ty → Run Unit
  | some type => annotate expr (some type)
  | none => return

/-- Gives a name in a namespace a type or removes it. -/
def bindIn (ns : Namespace) (name : String) (type : Option Ty) : Run Unit := do
  change (·.setType ns name type)
  note (.bound ns.scope name type)

/-- Gives a name a type or removes it. -/
def bindName (name : String) (type : Option Ty) : Run Unit := do
  bindIn (← namespaceHere) name type

/-- Runs something inside a function. Whether it succeeds or fails, the run
stands afterwards where it stood before. -/
def inside (ns : Namespace) (definition : Function) (body : Run Unit) : Run Unit := fun state =>
  let caller := state.frame
  let frame := caller.enter ns definition
  let entered := Event.entered definition.site.index ns.scope frame.stack
  match body { state with frame, trace := entered :: state.trace } with
  | .ok _ after =>
    .ok () { after with frame := caller, trace := .left definition.site.index :: after.trace }
  | .error error after =>
    .error error
      { after with frame := caller, trace := .left definition.site.index :: after.trace }

end Inference

end SdkUsage
