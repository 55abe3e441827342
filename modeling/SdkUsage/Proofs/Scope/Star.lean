/-
No scope has a name that nothing uses, and so none has a star: what an import of everything brings
is not known, and no other name is written like that.
-/
import SdkUsage.Proofs.Scope.Match

namespace SdkUsage

open SdkUsage.Tree

/-! ## Names that nothing uses -/

/-- No scope of a table has a name. -/
def SymbolTable.Lacks (table : SymbolTable) (name : String) : Prop :=
  ∀ {id scope}, table.scope? id = some scope → scope.symbol? name = none

theorem ScopeBuilder.lacks_run {builder : ScopeBuilder} {name : String} {act : Act}
    (h : builder.table.Lacks name) (ha : ∀ usage, act ≠ .use name usage) :
    (builder.run act).table.Lacks name := by
  intro id scope hs
  rcases scope?_run hs with hs | ⟨old, hold, ⟨other, usage, rfl, rfl⟩ | ⟨child, rfl⟩⟩ |
    ⟨_, _, _, -, -, rfl⟩
  · exact h hs
  · rw [Scope.symbol?_noteUse_eq, if_neg]
    · exact h hold
    · rintro rfl
      exact ha usage rfl
  · exact (h hold :)
  · rfl

theorem ScopeBuilder.lacks_runAll {builder : ScopeBuilder} {name : String} {acts : List Act}
    (h : builder.table.Lacks name) (ha : ∀ usage, .use name usage ∉ acts) :
    (builder.runAll acts).table.Lacks name := by
  induction acts generalizing builder with
  | nil => exact h
  | cons act acts ih =>
    rw [runAll_cons]
    refine ih (lacks_run h fun usage he => ?_) fun usage hm => ?_
    · exact ha usage (he ▸ List.mem_cons_self)
    · exact ha usage (List.mem_cons_of_mem _ hm)

/-- **A name that nothing uses is in no scope.** -/
theorem SymbolTable.build_lacks {module : Module} {name : String}
    (h : ∀ usage, .use name usage ∉ module.acts) : (build module).Lacks name := by
  have start : (∅ : SymbolTable).Lacks name := by
    intro id scope hs
    cases id with
    | zero => cases hs; rfl
    | succ id => cases hs
  intro id scope hs
  rw [build, scope?_classify] at hs
  obtain ⟨old, hold, rfl⟩ := Option.map_eq_some_iff.1 hs
  have unknown := ScopeBuilder.lacks_runAll start h hold
  exact (SortedMap.get?_mapValues ..).trans (congrArg (Option.map _) unknown)

/-! ## Stars -/

/-- The name that a step uses itself. -/
def Step.name? : Step → Option String
  | .act (.use name _) => some name
  | _ => none

/-- The names that steps use, apart from their parts. -/
def namesOf (steps : List Step) : List String := steps.filterMap Step.name?

section

variable {α : Type} {steps : List Step}

@[simp] theorem namesOf_nil : namesOf [] = [] := rfl

@[simp] theorem namesOf_cons_use (usage : Usage) (name : String) :
    namesOf (.use usage name :: steps) = name :: namesOf steps := rfl

@[simp] theorem namesOf_cons_read (e : Expr) : namesOf (.read e :: steps) = namesOf steps := rfl

@[simp] theorem namesOf_cons_bind (e : Expr) : namesOf (.bind e :: steps) = namesOf steps := rfl

@[simp] theorem namesOf_cons_declare (name : String) (binding : Binding) :
    namesOf (.act (.declare name binding) :: steps) = namesOf steps := rfl

@[simp] theorem namesOf_cons_enter (name : String) (kind : ScopeKind) :
    namesOf (.act (.enter name kind) :: steps) = namesOf steps := rfl

@[simp] theorem namesOf_cons_leave (mark : Option Nat) :
    namesOf (.act (.leave mark) :: steps) = namesOf steps := rfl

@[simp] theorem namesOf_append (as bs : List Step) :
    namesOf (as ++ bs) = namesOf as ++ namesOf bs := List.filterMap_append

theorem namesOf_flatMap (xs : List α) (f : α → List Step) :
    namesOf (xs.flatMap f) = xs.flatMap fun x => namesOf (f x) := List.filterMap_flatMap

@[simp] theorem namesOf_map_part (xs : List α) (role : Role) (f : α → Node) :
    namesOf (xs.map fun x => .part role (f x)) = [] := by
  simp [namesOf, List.filterMap_map, Function.comp_def, Step.name?]

@[simp] theorem namesOf_parts (role : Role) (nodes : List Node) :
    namesOf (nodes.map (.part role)) = [] :=
  namesOf_map_part nodes role id

@[simp] theorem namesOf_map_read (es : List Expr) : namesOf (es.map .read) = [] :=
  namesOf_map_part es .read Node.expr

@[simp] theorem namesOf_map_bind (es : List Expr) : namesOf (es.map .bind) = [] :=
  namesOf_map_part es .bind Node.expr

@[simp] theorem namesOf_map_stmt (ts : List Stmt) : namesOf (ts.map .stmt) = [] :=
  namesOf_map_part ts .read Node.stmt

@[simp] theorem namesOf_map_use (xs : List α) (usage : Usage) (f : α → String) :
    namesOf (xs.map fun x => .use usage (f x)) = xs.map f := by
  simp [namesOf, List.filterMap_map, Function.comp_def, Step.name?, Step.use]

@[simp] theorem namesOf_clauses (clauses : List (Comprehension Expr)) :
    namesOf (clauses.flatMap Comprehension.steps) = [] := by
  simp [namesOf_flatMap, Comprehension.steps]

@[simp] theorem namesOf_params (params : Parameters Expr) : namesOf params.steps = [] := by
  simp [Parameters.steps, namesOf_flatMap, Param.steps]

@[simp] theorem namesOf_paramUses (params : Parameters Expr) :
    namesOf params.uses = params.all.map (·.name.text) :=
  namesOf_map_use ..

@[simp] theorem namesOf_items (items : List WithItem) :
    namesOf (items.flatMap WithItem.steps) = [] := by
  simp [namesOf_flatMap, WithItem.steps]

end

namespace Tree

theorem Node.Starless.expr_names {e : Expr} (h : (Node.expr e).Starless) (role : Role) :
    "*" ∉ namesOf ((Node.expr e).steps role) := by
  have read : "*" ∉ namesOf e.readSteps := by
    cases e with
    | name site id => exact fun hs => h (List.mem_singleton.1 hs).symm
    | lambda site params body =>
      simp only [Expr.readSteps, namesOf_append, namesOf_params, namesOf_paramUses,
        namesOf_cons_enter, namesOf_cons_read, namesOf_cons_leave, namesOf_nil, List.nil_append,
        List.append_nil, List.mem_map, not_exists, not_and]
      exact h
    | _ => simp [Expr.readSteps]
  cases role with
  | read => exact read
  | bind =>
    cases e with
    | name site id => exact fun hs => h (List.mem_singleton.1 hs).symm
    | tuple | list | starred => simp [Node.steps, Expr.bindSteps]
    | _ => exact read

theorem importSteps_starless {names : List Alias} (h : ∀ a ∈ names, a.Starless) :
    "*" ∉ namesOf (importSteps names) := by
  simp only [importSteps, namesOf_map_use, List.mem_map, List.mem_filter, decide_eq_true_eq]
  rintro ⟨a, ⟨ha, plain⟩, star⟩
  exact (h a ha).named plain star

theorem declareSteps_starless {binding : Binding} {names : List Ident}
    (h : ∀ name ∈ names, name.text ≠ "*") : "*" ∉ namesOf (declareSteps binding names) := by
  simp only [declareSteps, namesOf_flatMap, namesOf_cons_use, namesOf_cons_declare, namesOf_nil,
    List.mem_flatMap, List.mem_singleton]
  rintro ⟨name, hn, star⟩
  exact h name hn star.symm

theorem Node.Starless.stmt_names {t : Stmt} (h : (Node.stmt t).Starless)
    (hc : ∀ child ∈ t.children, child.Starless) : "*" ∉ namesOf t.steps := by
  cases t with
  | functionDef d =>
    simp only [Stmt.steps, FunctionDef.steps, namesOf_append, namesOf_map_read, namesOf_params,
      namesOf_cons_use, namesOf_cons_enter, namesOf_nil, namesOf_paramUses, namesOf_map_stmt,
      namesOf_cons_leave, List.nil_append, List.append_nil, List.mem_append, List.mem_singleton,
      List.mem_map]
    rintro (star | ⟨param, hp, star⟩)
    · exact h.1 star.symm
    · exact h.2 param hp star
  | classDef d =>
    have reads : namesOf (d.keywords.map fun k => .read k.value) = [] :=
      namesOf_map_part d.keywords .read fun k => .expr k.value
    simp only [Stmt.steps, ClassDef.steps, namesOf_append, namesOf_map_read, reads,
      namesOf_cons_use, namesOf_cons_enter, namesOf_nil, namesOf_map_stmt, namesOf_cons_leave,
      List.nil_append, List.append_nil, List.mem_singleton]
    exact fun star => h star.symm
  | tryBlock site body handlers orelse finalbody =>
    simp only [Stmt.steps, namesOf_append, namesOf_map_stmt, namesOf_flatMap, Handler.steps,
      namesOf_map_read, namesOf_map_use, List.nil_append, List.append_nil, List.mem_flatMap,
      List.mem_map, Option.mem_toList]
    rintro ⟨handler, hh, name, hn, star⟩
    exact h handler hh name hn star
  | augAssign site target op value =>
    -- The name that is read as well is the target.
    cases target with
    | name target id =>
      have plain : id ≠ "*" := hc (.expr (.name target id)) (by simp [Stmt.children])
      simpa [Stmt.steps, augmentedUse] using plain.symm
    | _ => simp [Stmt.steps, augmentedUse]
  | importModules site names => exact importSteps_starless fun a ha => (h a ha).2
  | importFrom site path level names => exact importSteps_starless h
  | globals site names => exact declareSteps_starless h
  | nonlocals site names => exact declareSteps_starless h
  | forLoop => simp [Stmt.steps, -List.map_append]
  | _ => simp [Stmt.steps]

/-- A node of which no part has a star for a name uses none. -/
theorem Node.acts_starless {n : Node} (h : ∀ m ∈ n.preorder, m.Starless) (role : Role)
    (usage : Usage) : .use "*" usage ∉ n.acts role := by
  have own : "*" ∉ namesOf (n.steps role) := by
    have here := h n (Node.mem_preorder_self n)
    cases n with
    | expr e => exact here.expr_names role
    | stmt t =>
      exact here.stmt_names fun child hc =>
        h child (Node.mem_preorder_of_mem_children hc (Node.mem_preorder_self _))
  rw [Node.acts_eq]
  intro hu
  obtain ⟨step, hs, hu⟩ := List.mem_flatMap.1 hu
  cases step with
  | act a =>
    cases List.mem_singleton.1 hu
    exact own (List.mem_filterMap.2 ⟨_, hs, rfl⟩)
  | part role child =>
    have hc := Node.mem_children_of_step hs
    exact Node.acts_starless (fun m hm => h m (Node.mem_preorder_of_mem_children hc hm)) role usage
      hu
termination_by n.rank
decreasing_by exact Node.rank_lt_of_mem_children hc

/-- **No scope has a star** where no name is one. -/
theorem Module.lacks_star {module : Module} (h : ∀ n ∈ module.nodes, n.Starless) :
    (SymbolTable.build module).Lacks "*" := by
  refine SymbolTable.build_lacks fun usage hu => ?_
  obtain ⟨n, hn, hu⟩ := List.mem_flatMap.1 hu
  refine Node.acts_starless (fun m hm => h m ?_) .read usage hu
  exact List.mem_flatMap.2 ⟨n, hn, hm⟩

end Tree

end SdkUsage
