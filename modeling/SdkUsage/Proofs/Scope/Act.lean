/-
How the acts of a tree follow one another. The scopes a node opens are closed
again in it, so that between the acts of a node outside of definitions the same
scope is current.
-/
import SdkUsage.Proofs.Tree.Numbering
import SdkUsage.Scope.Act

namespace SdkUsage

open SdkUsage.Tree

/-! ## Scopes are closed where they are opened -/

/-- Acts that open no scope and close none. -/
def Act.isInside : Act → Bool
  | .use .. | .declare .. => true
  | .enter .. | .leave _ => false

/-- Acts that close the scopes they open, and no other. -/
inductive Closed : List Act → Prop
  | nil : Closed []
  | inside {act} : act.isInside = true → Closed [act]
  | append {as bs} : Closed as → Closed bs → Closed (as ++ bs)
  | scope {name kind acts mark} : Closed acts →
    Closed (.enter name kind :: (acts ++ [.leave mark]))

/-- Steps with no scope opened or closed among them, apart from what their
parts do. -/
def Level (steps : List Step) : Prop := ∀ act, .act act ∈ steps → act.isInside = true

theorem level_append {as bs : List Step} : Level (as ++ bs) ↔ Level as ∧ Level bs := by
  simp only [Level, List.mem_append, or_imp, forall_and]

theorem level_flatMap {α : Type} {xs : List α} {f : α → List Step} :
    Level (xs.flatMap f) ↔ ∀ x ∈ xs, Level (f x) := by
  simp only [Level, List.mem_flatMap, forall_exists_index, and_imp]
  exact ⟨fun h x hx act ha => h act x hx ha, fun h act x hx ha => h x hx act ha⟩

@[simp] theorem level_nil : Level [] := by simp [Level]

@[simp] theorem level_act {act : Act} {steps : List Step} :
    Level (.act act :: steps) ↔ act.isInside = true ∧ Level steps := by
  simp [Level]

@[simp] theorem level_part {role : Role} {node : Node} {steps : List Step} :
    Level (.part role node :: steps) ↔ Level steps := by
  simp [Level]

@[simp] theorem level_use {usage : Usage} {name : String} {steps : List Step} :
    Level (.use usage name :: steps) ↔ Level steps :=
  level_act.trans (and_iff_right rfl)

@[simp] theorem level_read {e : Expr} {steps : List Step} :
    Level (.read e :: steps) ↔ Level steps := level_part

@[simp] theorem level_bind {e : Expr} {steps : List Step} :
    Level (.bind e :: steps) ↔ Level steps := level_part

@[simp] theorem level_map_part {role : Role} {nodes : List Node} :
    Level (nodes.map (.part role)) := by
  simp [Level]

@[simp] theorem level_map_read {es : List Expr} : Level (es.map .read) := by
  simp [Level, Step.read]

@[simp] theorem level_map_bind {es : List Expr} : Level (es.map .bind) := by
  simp [Level, Step.bind]

@[simp] theorem level_map_stmt {ts : List Stmt} : Level (ts.map .stmt) := by
  simp [Level, Step.stmt]

@[simp] theorem level_map_use {α : Type} {xs : List α} {usage : Usage} {f : α → String} :
    Level (xs.map fun x => .use usage (f x)) := by
  intro act h
  obtain ⟨x, -, h⟩ := List.mem_map.1 h
  cases h
  rfl

namespace Tree

theorem level_clauses (clauses : List (Comprehension Expr)) :
    Level (clauses.flatMap Comprehension.steps) :=
  level_flatMap.2 fun clause _ => by simp [Comprehension.steps]

@[simp] theorem Parameters.level_steps (params : Parameters Expr) : Level params.steps :=
  level_flatMap.2 fun param _ => by simp [Param.steps, level_append]

@[simp] theorem Parameters.level_uses (params : Parameters Expr) : Level params.uses :=
  level_map_use

theorem Expr.level_readSteps {e : Expr} (h : (Node.expr e).opensScope = false) :
    Level e.readSteps := by
  unfold Expr.readSteps
  split
  case h_6 => cases h
  all_goals simp [level_append, level_clauses]

theorem Expr.level_bindSteps {e : Expr} (h : (Node.expr e).opensScope = false) :
    Level e.bindSteps := by
  unfold Expr.bindSteps
  split
  case h_5 => exact Expr.level_readSteps h
  all_goals simp

theorem Stmt.level_steps {t : Stmt} (h : (Node.stmt t).opensScope = false) : Level t.steps := by
  unfold Stmt.steps
  split
  case h_2 target _ _ => cases target <;> simp [augmentedUse]
  case h_4 | h_5 => exact level_map_use
  case h_6 | h_7 => cases h
  case h_9 =>
    refine level_append.2 ⟨level_flatMap.2 fun item _ => ?_, level_map_stmt⟩
    simp [WithItem.steps]
  case h_10 =>
    refine level_append.2 ⟨level_append.2 ⟨level_map_stmt, level_flatMap.2 fun handler _ => ?_⟩,
      level_map_stmt⟩
    simp [Handler.steps, level_append]
  case h_12 | h_13 => exact level_flatMap.2 fun _ _ => by simp [Act.isInside]
  all_goals simp [-List.map_append, level_append]

/-- A node without a scope of its own opens none. -/
theorem Node.level_steps {node : Node} (h : node.opensScope = false) (role : Role) :
    Level (node.steps role) := by
  cases node with
  | stmt t => cases role <;> exact Stmt.level_steps h
  | expr e =>
    cases role with
    | read => exact Expr.level_readSteps h
    | bind => exact Expr.level_bindSteps h

/-- The steps of a definition: some around it, then its scope. -/
structure Node.Scoped (steps : List Step) (mark : Option Nat) (outer : List Step) (name : String)
    (kind : ScopeKind) (inner : List Step) : Prop where
  steps : steps = outer ++ .act (.enter name kind) :: (inner ++ [.act (.leave mark)])
  outer : Level outer
  inner : Level inner

theorem FunctionDef.scoped (d : Function) :
    Node.Scoped d.steps (some d.site.index)
      (d.decorators.map .read ++ d.params.steps ++ d.returns.toList.map .read
        ++ [.use .assigned d.name.text])
      d.name.text .function (d.params.uses ++ d.body.map .stmt) where
  steps := by simp [FunctionDef.steps]
  outer := by simp [level_append]
  inner := by simp [level_append]

theorem ClassDef.scoped (d : ClassDef Stmt) :
    Node.Scoped d.steps none
      (d.decorators.map .read ++ d.bases.map .read ++ (d.keywords.map fun k => .read k.value)
        ++ [.use .assigned d.name.text])
      d.name.text .classBody (d.body.map .stmt) where
  steps := by simp [ClassDef.steps]
  outer := by simp [Level, Step.read, Step.use, Act.isInside]
  inner := level_map_stmt

theorem Expr.scoped_lambda (site : Site) (params : Parameters Expr) (body : Expr) :
    Node.Scoped (Expr.lambda site params body).readSteps none params.steps "lambda" .lambda
      (params.uses ++ [.read body]) where
  steps := by simp [Expr.readSteps]
  outer := by simp
  inner := by simp [level_append]

/-- What opens a scope closes it. Only functions leave a mark. -/
theorem Node.exists_scoped {node : Node} (h : node.opensScope = true) (role : Role) :
    ∃ mark outer name kind inner, Scoped (node.steps role) mark outer name kind inner ∧
      ∀ i ∈ mark, ∃ d, node = .stmt (.functionDef d) ∧ i = d.site.index := by
  unfold Node.opensScope at h
  split at h
  · next site params body =>
    have hs := Expr.scoped_lambda site params body
    cases role <;> exact ⟨none, _, _, _, _, hs, by rintro _ ⟨⟩⟩
  · next d =>
    have own : ∀ i ∈ some d.site.index, ∃ d', stmt (.functionDef d) = stmt (.functionDef d') ∧
        i = d'.site.index := by
      rintro _ ⟨⟩
      exact ⟨d, rfl, rfl⟩
    cases role <;> exact ⟨some d.site.index, _, _, _, _, d.scoped, own⟩
  · next d =>
    cases role <;> exact ⟨none, _, _, _, _, d.scoped, by rintro _ ⟨⟩⟩
  · cases h

theorem closed_flatMap {α : Type} {xs : List α} {f : α → List Act}
    (h : ∀ x ∈ xs, Closed (f x)) : Closed (xs.flatMap f) := by
  induction xs with
  | nil => exact .nil
  | cons x xs ih =>
    rw [List.flatMap_cons]
    exact .append (h x (by simp)) (ih fun y hy => h y (by simp [hy]))

theorem closed_of_level {steps : List Step} (h : Level steps)
    (hp : ∀ role n, .part role n ∈ steps → Closed (n.acts role)) :
    Closed (steps.flatMap stepActs) := by
  refine closed_flatMap fun step hs => ?_
  cases step with
  | act act => exact .inside (h act hs)
  | part role n => exact hp role n hs

theorem Node.Scoped.acts_eq {steps : List Step} {mark : Option Nat} {outer inner : List Step}
    {name : String} {kind : ScopeKind} (h : Scoped steps mark outer name kind inner) :
    steps.flatMap stepActs = outer.flatMap stepActs
      ++ .enter name kind :: (inner.flatMap stepActs ++ [.leave mark]) := by
  rw [h.steps]
  simp [stepActs]

/-- **The acts of a node close the scopes they open.** -/
theorem Node.acts_closed (node : Node) (role : Role) : Closed (node.acts role) := by
  have ih : ∀ role' n, .part role' n ∈ node.steps role → Closed (n.acts role') :=
    fun role' n _ => n.acts_closed role'
  rw [Node.acts_eq]
  cases h : node.opensScope with
  | false => exact closed_of_level (node.level_steps h role) ih
  | true =>
    obtain ⟨mark, outer, name, kind, inner, hs, -⟩ := node.exists_scoped h role
    rw [hs.steps] at ih
    rw [hs.acts_eq]
    refine .append (closed_of_level hs.outer fun role' n hn => ih role' n ?_)
      (.scope (closed_of_level hs.inner fun role' n hn => ih role' n ?_))
    · exact List.mem_append_left _ hn
    · simp [hn]
termination_by node.rank
decreasing_by exact Node.rank_lt_of_mem_children (Node.mem_children_of_step (by assumption))

/-! ## Acts of statements -/

/-- Every part of a node is run through in some role. -/
theorem Node.exists_step {node child : Node} (h : child ∈ node.children) (role : Role) :
    ∃ part, .part part child ∈ node.steps role := by
  have hc := (node.steps_perm role).mem_iff.2 h
  obtain ⟨step, hs, hp⟩ := List.mem_filterMap.1 hc
  cases step with
  | act act => cases hp
  | part part n =>
    cases hp
    exact ⟨part, hs⟩

theorem flatMap_split {α β : Type} {xs : List α} {x : α} (f : α → List β) (h : x ∈ xs) :
    ∃ as bs, xs = as ++ x :: bs ∧ xs.flatMap f = as.flatMap f ++ f x ++ bs.flatMap f := by
  obtain ⟨as, bs, rfl⟩ := List.append_of_mem h
  exact ⟨as, bs, rfl, by simp⟩

/-- The acts of statements. -/
def actsOf (stmts : List Stmt) : List Act := (stmtNodes stmts).flatMap (Node.acts .read)

theorem actsOf_eq (stmts : List Stmt) : actsOf stmts = (stmts.map Step.stmt).flatMap stepActs := by
  simp only [actsOf, stmtNodes, List.flatMap_map]
  rfl

theorem closed_actsOf (stmts : List Stmt) : Closed (actsOf stmts) :=
  closed_flatMap fun n _ => n.acts_closed .read

/-- The acts inside a function, for its parameters and its body. -/
def FunctionDef.innerActs (d : Function) : List Act :=
  d.params.uses.flatMap stepActs ++ actsOf d.body

theorem FunctionDef.closed_params (d : Function) : Closed (d.params.uses.flatMap stepActs) :=
  closed_of_level d.params.level_uses fun role n _ => n.acts_closed role

theorem FunctionDef.closed_innerActs (d : Function) : Closed d.innerActs :=
  d.closed_params.append (closed_actsOf d.body)

/-- A function has acts around it and, in a scope that is then marked, those inside
it. -/
theorem FunctionDef.acts_eq (d : Function) (role : Role) :
    ∃ outer, Closed outer ∧ (Node.stmt (.functionDef d)).acts role
      = outer ++ .enter d.name.text .function :: (d.innerActs ++ [.leave (some d.site.index)]) := by
  have hsteps : (Node.stmt (.functionDef d)).steps role = d.steps := by cases role <;> rfl
  refine ⟨_, closed_of_level d.scoped.outer fun role' n _ => n.acts_closed role', ?_⟩
  rw [Node.acts_eq, hsteps, d.scoped.acts_eq, innerActs, actsOf_eq, ← List.flatMap_append]

end Tree

end SdkUsage
