/-
What programs under other names and numbers do to names: the acts of a recast node are the acts
of the node, under the new names (`Node.acts_recast`), and so programs that differ in spans only
have the same scopes (`SymbolTable.build_recast`).
-/
import SdkUsage.Proofs.Scope.Unread
import SdkUsage.Proofs.Tree.Recast

namespace SdkUsage

open SdkUsage.Tree

/-- An act under other names and numbers. A lambda has no name. -/
def Act.recast (c : Recast) : Act → Act
  | .use name usage => .use (c.name name) usage
  | .declare name binding => .declare (c.name name) binding
  | .enter name .lambda => .enter name .lambda
  | .enter name kind => .enter (c.name name) kind
  | .leave definition => .leave (definition.map c.stmts)

/-- A step under other names and numbers. -/
def Step.recast (c : Recast) : Step → Step
  | .act a => .act (a.recast c)
  | .part role node => .part role (node.recast c)

namespace Tree

variable {c : Recast}

theorem map_read_recast (es : List Expr) :
    (es.map (Expr.recast c)).map Step.read = (es.map Step.read).map (Step.recast c) := by
  simp [Step.read, Step.recast, Node.recast]

theorem map_bind_recast (es : List Expr) :
    (es.map (Expr.recast c)).map Step.bind = (es.map Step.bind).map (Step.recast c) := by
  simp [Step.bind, Step.recast, Node.recast]

theorem map_stmt_recast (ts : List Stmt) :
    (ts.map (Stmt.recast c)).map Step.stmt = (ts.map Step.stmt).map (Step.recast c) := by
  simp [Step.stmt, Step.recast, Node.recast]

theorem Comprehension.steps_recast (clause : Comprehension Expr) :
    (clause.recast c).steps = clause.steps.map (Step.recast c) := by
  cases clause
  simp only [Comprehension.recast, Comprehension.steps, recastExprs_eq, map_read_recast,
    List.map_cons]
  rfl

theorem Param.steps_recast (param : Param Expr) :
    (param.recast c).steps = param.steps.map (Step.recast c) := by
  cases param
  simp only [Param.recast, Param.steps, recastExpr?_eq, Option.toList_map, map_read_recast,
    List.map_append]

theorem Param.name_recast (param : Param Expr) :
    (param.recast c).name.text = c.name param.name.text := by
  cases param
  rfl

theorem Parameters.steps_recast (params : Parameters Expr) :
    (params.recast c).steps = params.steps.map (Step.recast c) := by
  simp only [Parameters.steps, Parameters.all_recast, List.flatMap_map, List.map_flatMap,
    Param.steps_recast]

theorem Parameters.uses_recast (params : Parameters Expr) :
    (params.recast c).uses = params.uses.map (Step.recast c) := by
  simp [Parameters.uses, Parameters.all_recast, Param.name_recast, Step.use, Step.recast,
    Act.recast]

theorem clauses_steps_recast (clauses : List (Comprehension Expr)) :
    (clauses.map (Comprehension.recast c)).flatMap Comprehension.steps =
      (clauses.flatMap Comprehension.steps).map (Step.recast c) := by
  simp only [List.flatMap_map, List.map_flatMap, Comprehension.steps_recast]

theorem Expr.readSteps_recast (e : Expr) :
    (e.recast c).readSteps = e.readSteps.map (Step.recast c) := by
  have parts := map_read_recast (c := c) e.children
  rw [← Expr.children_recast] at parts
  cases e with
  | name => rfl
  | listComp | setComp | generator | dictComp =>
    simp only [Expr.recast, Expr.readSteps, recastClauses_eq, clauses_steps_recast, List.map_append]
    rfl
  | lambda =>
    simp only [Expr.recast, Expr.readSteps, Parameters.steps_recast, Parameters.uses_recast,
      List.map_append]
    rfl
  | named => rfl
  | _ => exact parts

theorem Expr.bindSteps_recast (e : Expr) :
    (e.recast c).bindSteps = e.bindSteps.map (Step.recast c) := by
  have read := e.readSteps_recast (c := c)
  cases e with
  | name => rfl
  | tuple | list => simp only [Expr.recast, Expr.bindSteps, recastExprs_eq, map_bind_recast]
  | starred => rfl
  | _ => exact read

theorem augmentedUse_recast (e : Expr) :
    augmentedUse (e.recast c) = (augmentedUse e).map (Step.recast c) := by
  cases e <;> rfl

theorem WithItem.steps_recast (item : WithItem) :
    (item.recast c).steps = item.steps.map (Step.recast c) := by
  simp only [WithItem.recast, WithItem.steps, Option.toList_map, map_bind_recast, List.map_cons]
  rfl

theorem Handler.steps_recast (handler : Handler Stmt) :
    (handler.recast c).steps = handler.steps.map (Step.recast c) := by
  cases handler
  simp only [Handler.recast, Handler.steps, recastStmts_eq, Option.toList_map, List.map_append,
    List.map_map]
  rfl

theorem importSteps_recast (names : List Alias) :
    importSteps (names.map (Alias.recast c)) = (importSteps names).map (Step.recast c) := by
  simp only [importSteps, List.filter_map, List.map_map, Function.comp_def, Alias.name_recast]
  refine List.map_congr_left fun a ha => ?_
  have hs : a.name ≠ "*" := of_decide_eq_true (List.mem_filter.1 ha).2
  rw [Alias.boundName_recast c hs]
  rfl

theorem declareSteps_recast (binding : Binding) (names : List Ident) :
    declareSteps binding (names.map (Ident.recast c)) =
      (declareSteps binding names).map (Step.recast c) := by
  simp only [declareSteps, List.flatMap_map, List.map_flatMap]
  rfl

theorem FunctionDef.steps_recast (definition : Function) :
    (definition.recast c).steps = definition.steps.map (Step.recast c) := by
  cases definition
  simp only [FunctionDef.recast, FunctionDef.steps, recastStmts_eq, Option.toList_map,
    map_read_recast, map_stmt_recast, Parameters.steps_recast, Parameters.uses_recast,
    List.map_append]
  rfl

theorem ClassDef.steps_recast (definition : ClassDef Stmt) :
    (definition.recast c).steps = definition.steps.map (Step.recast c) := by
  cases definition
  simp only [ClassDef.recast, ClassDef.steps, recastStmts_eq, List.map_append, List.map_map,
    Function.comp_def, Keyword.value_recast]
  rfl

theorem Stmt.steps_recast (t : Stmt) : (t.recast c).steps = t.steps.map (Step.recast c) := by
  have parts : (t.recast c).children.map (Step.part .read) =
      (t.children.map (Step.part .read)).map (Step.recast c) := by
    rw [Stmt.children_recast, List.map_map, List.map_map]
    rfl
  cases t with
  | assign => simp only [Stmt.recast, Stmt.steps, map_bind_recast, List.map_cons]; rfl
  | augAssign => simp only [Stmt.recast, Stmt.steps, augmentedUse_recast, List.map_append]; rfl
  | annAssign =>
    simp only [Stmt.recast, Stmt.steps, Option.toList_map, map_read_recast, List.map_append,
      List.map_cons]
    rfl
  | importModules => exact importSteps_recast _
  | importFrom => exact importSteps_recast _
  | functionDef definition => exact definition.steps_recast
  | classDef definition => exact definition.steps_recast
  | forLoop =>
    simp only [Stmt.recast, Stmt.steps, recastStmts_eq, ← List.map_append, map_stmt_recast,
      List.map_cons]
    rfl
  | withBlock =>
    simp only [Stmt.recast, Stmt.steps, recastStmts_eq, map_stmt_recast, List.flatMap_map,
      WithItem.steps_recast, List.map_append, List.map_flatMap]
  | tryBlock =>
    simp only [Stmt.recast, Stmt.steps, recastStmts_eq, recastHandlers_eq, ← List.map_append,
      map_stmt_recast, List.flatMap_map, Handler.steps_recast, ← List.map_flatMap]
  | deleting => exact map_bind_recast _
  | globals => exact declareSteps_recast _ _
  | nonlocals => exact declareSteps_recast _ _
  | _ => exact parts

theorem Node.steps_recast (role : Role) (n : Node) :
    (n.recast c).steps role = (n.steps role).map (Step.recast c) := by
  cases n with
  | stmt t => cases role <;> exact t.steps_recast
  | expr e =>
    cases role with
    | read => exact e.readSteps_recast
    | bind => exact e.bindSteps_recast

/-- **A recast node does what the node does, under the new names.** -/
theorem Node.acts_recast (role : Role) (n : Node) :
    (n.recast c).acts role = (n.acts role).map (Act.recast c) := by
  rw [Node.acts_eq, Node.acts_eq, Node.steps_recast, List.flatMap_map, List.map_flatMap]
  refine List.flatMap_congr fun step hs => ?_
  cases step with
  | act act => rfl
  | part role child => exact Node.acts_recast role child
termination_by n.rank
decreasing_by exact Node.rank_lt_of_mem_children (Node.mem_children_of_step hs)

theorem actsOf_recast (stmts : List Stmt) :
    actsOf (stmts.map (Stmt.recast c)) = (actsOf stmts).map (Act.recast c) := by
  simp only [actsOf, stmtNodes_recast, List.flatMap_map, List.map_flatMap, Node.acts_recast]

end Tree

theorem Act.recast_self (act : Act) : act.recast {} = act := by
  cases act with
  | enter name kind => cases kind <;> rfl
  | leave definition => cases definition <;> rfl
  | _ => rfl

/-- **Programs that differ in spans only have the same scopes.** -/
theorem SymbolTable.build_recast (module : Module) : build (module.recast {}) = build module := by
  have acts : (module.recast {}).acts = module.acts := by
    rw [Module.acts, ← actsOf, Module.recast, actsOf_recast, funext Act.recast_self, List.map_id']
    rfl
  rw [build, acts, build]

end SdkUsage
