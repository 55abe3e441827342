/-
What inference does at a node. A node is concluded after the parts of it that
are analyzed. Types flow through names, members of the SDK module and of
clients, calls, assignments and returns; the last write to a name wins.

Bodies of functions are analyzed at calls only, and classes and lambdas not
at all.
-/
import SdkUsage.Inference.State
import SdkUsage.Tree.Walk

namespace SdkUsage

open SdkUsage.Tree

namespace Tree.Node

/-- The parts of a node that are analyzed with it, in order. In an annotated
assignment the annotation comes before the target. -/
def analyzed : Node → List Node
  | expr (.lambda ..) | stmt (.functionDef _) | stmt (.classDef _) => []
  | stmt (.annAssign _ target annotation (some value)) =>
    [.expr annotation, .expr target, .expr value]
  | node => node.children

theorem mem_children_of_mem_analyzed {node child : Node} (h : child ∈ node.analyzed) :
    child ∈ node.children := by
  unfold analyzed at h
  split at h
  case h_1 | h_2 | h_3 => simp at h
  case h_4 =>
    simp only [List.mem_cons, List.not_mem_nil, or_false] at h
    simp only [children, Stmt.children, Option.toList_some, exprNodes, List.map_cons,
      List.map_nil, List.mem_cons, List.not_mem_nil, or_false]
    rcases h with rfl | rfl | rfl <;> simp
  case h_5 => exact h

end Tree.Node

namespace Inference

/-! ## Members -/

/-- The type of a member of a value. -/
def memberType (config : Config) (attr : String) : Option Ty → Option Ty
  | some .moduleHandle => if attr = config.clientFactory then some .clientFactory else none
  | some (.serviceClient service) => some (.methodRef service attr)
  | _ => none

/-! ## Calls -/

/-- The argument that names the service: the first one or, if there are only
keywords, the one called `service_name`. -/
def serviceArgument? (args : List Expr) (keywords : List (Keyword Expr)) : Option Expr :=
  match args with
  | arg :: _ => some arg
  | [] => (keywords.find? fun k => k.name.any (·.text = "service_name")).map (·.value)

/-- The text an expression is known to be: a plain literal, or a value that
comes from one. -/
def knownText? (types : Annotations) (expr : Expr) : Option String :=
  expr.literal?.or ((types.ofExpr? expr).bind Ty.literal?)

/-- The type of a client that the client factory makes. -/
def clientType (types : Annotations) (args : List Expr) (keywords : List (Keyword Expr)) :
    Option Ty :=
  ((serviceArgument? args keywords).bind (knownText? types)).map .serviceClient

/-- Gives positional parameters the types of the arguments that have one. -/
def passArguments (ns : Namespace) (args : List Expr) (params : List (Param Expr)) : Run Unit :=
  (args.zip params).forM fun (arg, param) => do
    match ← exprType arg with
    | some type => bindIn ns param.name.text (some type)
    | none => return

/-- What a function of a type returns. -/
def returnType : Option Ty → Option Ty
  | some (.function returns) => some returns
  | _ => none

/-- Analyzes a function at a call. The name that is called takes the type of
the function, so that later calls need no further analysis. -/
def callFunction (config : Config) (enter : Function → Run Unit) (name : String)
    (args : List Expr) : Run (Option Ty) := do
  let definition ← ask (·.definition · name)
  let ns ← ask (·.definitionNamespace · definition)
  if config.recursionGuard && (← get).frame.isActive definition then
    note (.skipped definition.site.index)
    return none
  passArguments ns args definition.params.args
  inside ns definition (enter definition)
  let type := (← get).types.stmts.get? definition.site.index
  bindName name type
  return returnType type

/-- The type of a call. What is called decides by its type; a name without one
of these types may still be that of a function. -/
def callType (config : Config) (enter : Function → Run Unit) (func : Expr) (args : List Expr)
    (keywords : List (Keyword Expr)) : Run (Option Ty) := do
  let state ← get
  match state.types.ofExpr? func, func with
  | some .clientFactory, _ => return clientType state.types args keywords
  | some (.methodRef service method), _ => return some (.invocation service method)
  | some (.function returns), _ => return some returns
  | _, .name _ name =>
    if state.env.defines state.frame.ns name then callFunction config enter name args
    else return none
  | _, _ => return none

/-! ## Statements -/

/-- The type of a value that is assigned. A plain literal takes the type of its
text here. -/
def assignedType (value : Expr) : Run (Option Ty) := do
  match ← exprType value, value.literal? with
  | none, some text =>
    annotate value.index (some (.stringLiteral text))
    return some (.stringLiteral text)
  | type, _ => return type

/-- Gives a target the type of what is assigned to it, if it is a name. -/
def assignTarget (type : Option Ty) : Expr → Run Unit
  | .name site name => do
    bindName name type
    annotate site.index type
  | _ => return

/-- Assigns a value to targets. -/
def assign (targets : List Expr) (value : Expr) : Run Unit := do
  let type ← assignedType value
  targets.forM (assignTarget type)

/-- Binds the names of an import that bring a member. -/
def bindImports (member : String) (type : Ty) (names : List Alias) : Run Unit :=
  (names.filter (·.name = member)).forM fun name => bindName name.boundName (some type)

/-- Gives the function that is analyzed the type of a value it returns. -/
def credit (type : Ty) : Run Unit := do
  match (← get).frame.function with
  | some definition =>
    changeTypes (·.annotateStmt definition.site.index (.function type))
    note (.credited definition.site.index (.function type))
  | none => return

/-- Records the type of a value that is returned, if it has one. -/
def recordReturn (stmt : Nat) (value : Expr) : Run Unit := do
  match ← exprType value with
  | some type =>
    changeTypes (·.annotateStmt stmt type)
    note (.returned stmt type)
    credit type
  | none => return

/-- Registers a function under its name. -/
def define (definition : Function) : Run Unit := do
  let ns ← namespaceHere
  change (·.register ns definition.name.text definition)
  note (.defined ns.scope definition.name.text definition.site.index)

/-! ## Nodes -/

/-- What is done at an expression after its parts. -/
def concludeExpr (config : Config) (enter : Function → Run Unit) : Expr → Run Unit
  | .name site name => do annotate site.index (← ask (·.typeOf · name))
  | .member site value attr => do
    annotateSome site.index (memberType config attr.text (← exprType value))
  | .call site func args keywords => do
    let callee ← exprType func
    let result ← callType config enter func args keywords
    note (.called site.index callee result)
    annotateSome site.index result
  | _ => return

/-- What is done at a statement after its parts. -/
def concludeStmt (config : Config) : Stmt → Run Unit
  | .assign _ targets value => assign targets value
  | .annAssign _ target _ (some value) => assign [target] value
  | .importModules _ names => bindImports config.sdkModule .moduleHandle names
  | .importFrom _ path level names =>
    if path = some config.sdkModule ∧ level = 0 then
      bindImports config.clientFactory .clientFactory names
    else return
  | .functionDef definition => define definition
  | .returning site (some value) => recordReturn site.index value
  | _ => return

/-- What is done at a node after its parts. Where a function is called, `enter`
analyzes its body. -/
def conclude (config : Config) (enter : Function → Run Unit) : Node → Run Unit
  | .expr expr => concludeExpr config enter expr
  | .stmt stmt => concludeStmt config stmt

/-- Analyzes a node. -/
def visit (config : Config) (enter : Function → Run Unit) (node : Node) : Run Unit := do
  forEach node.analyzed fun child _ => visit config enter child
  conclude config enter node
termination_by node.rank
decreasing_by
  exact Node.rank_lt_of_mem_children (Node.mem_children_of_mem_analyzed (by assumption))

/-- Analyzes statements one after another. -/
def visitAll (config : Config) (enter : Function → Run Unit) (stmts : List Stmt) : Run Unit :=
  stmts.forM fun stmt => visit config enter (.stmt stmt)

/-- Analyzes the body of a function, with at most `bound` bodies nested in it. -/
def enterBody (config : Config) : (bound : Nat) → Function → Run Unit
  | 0, _ => throw .exhausted
  | bound + 1, definition => visitAll config (enterBody config bound) definition.body

/-- How deep bodies may be nested in a run over a module. With the recursion
guard no function is inside itself, so that the number of functions is
enough; without it a program that stops is given room to do so. -/
def nestingBound (module : Module) : Nat :=
  (module.functions.length + 1) * (module.expressions + module.statements + 2)

/-- **Infers the types of a module.** The run starts in the module's namespace.
What earlier runs found stays known. -/
def analyzeModule (config : Config) (module : Module) : Run Unit := do
  modify fun state => { state with frame := { state.frame with ns := .module, function := none } }
  visitAll config (enterBody config (nestingBound module)) module.body

end Inference

end SdkUsage
