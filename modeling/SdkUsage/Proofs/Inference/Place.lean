/-
What a run writes, and where it can stand. The functions that a run knows of
are those of its module, so that whatever it comes to is a node of it.
-/
import Mathlib.Data.List.Perm.Subperm
import SdkUsage.Proofs.Inference.Run
import SdkUsage.Proofs.Scope.Environment

namespace SdkUsage.Inference

open SdkUsage.Tree

/-- A function stands in a module. -/
def DefinedIn (module : Module) (definition : Function) : Prop :=
  .stmt (.functionDef definition) ∈ module.nodes

/-! ## What is written -/

/-- The type that an action writes. -/
def Action.type? : Action → Option Ty
  | annotate _ type => type
  | record _ type => some type
  | credit _ type => some type
  | bind _ _ type => type
  | define .. => none
  | call _ _ result => result
  | skip _ => none

theorem get?_put_cases {table : IndexTable Ty} {i j : Nat} {value : Option Ty} {type : Ty}
    (h : (table.put i value).get? j = some type) :
    value = some type ∨ table.get? j = some type := by
  by_cases hj : j = i
  · subst hj
    by_cases hi : j < table.size
    · exact .inl ((IndexTable.get?_put_self value hi).symm.trans h)
    · -- Outside of the table nothing is written.
      simp only [IndexTable.size] at hi
      simp [IndexTable.put, IndexTable.get?, hi] at h
  · exact .inr ((IndexTable.get?_put_other value hj).symm.trans h)

/-- What is known after an action was known before or is what it wrote. -/
theorem State.Known.of_act {s : State} {action : Action} {type : Ty}
    (h : (s.act action).Known type) : s.Known type ∨ action.type? = some type := by
  cases h with
  | @expr i h =>
    cases action
    case annotate =>
      rcases get?_put_cases h with h | h
      · exact .inr h
      · exact .inl (.expr h)
    case call result =>
      cases result with
      | none => exact .inl (.expr h)
      | some new =>
        rcases get?_put_cases h with h | h
        · exact .inr h
        · exact .inl (.expr h)
    all_goals exact .inl (.expr h)
  | @stmt i h =>
    cases action
    case record =>
      rcases get?_put_cases h with h | h
      · exact .inr h
      · exact .inl (.stmt h)
    case credit =>
      rcases get?_put_cases h with h | h
      · exact .inr h
      · exact .inl (.stmt h)
    case call result => cases result <;> exact .inl (.stmt h)
    all_goals exact .inl (.stmt h)
  | @name key h =>
    cases action
    case bind scope name new =>
      cases new with
      | none =>
        simp only [State.act_env, Action.onEnv, SortedMap.get?_erase] at h
        split at h
        · cases h
        · exact .inl (.name h)
      | some new =>
        simp only [State.act_env, Action.onEnv, SortedMap.get?_insert] at h
        split at h
        · exact .inr h
        · exact .inl (.name h)
    all_goals exact .inl (.name h)

/-- What is known depends on the tables, not on where the run stands. -/
theorem State.Known.of_eq {s s' : State} {type : Ty} (h : s'.Known type) (he : s'.env = s.env)
    (ht : s'.types = s.types) : s.Known type := by
  cases h with
  | expr h => exact .expr (ht ▸ h)
  | stmt h => exact .stmt (ht ▸ h)
  | name h => exact .name (he ▸ h)

/-! ## What is annotated -/

variable {config : Config} {module : Module} {s : State}

/-- A target is part of the statement that assigns to it. -/
theorem State.Assigns.part {target value : Expr} (h : s.Assigns module target value) :
    ∃ t : Stmt, s.Here module (.stmt t) ∧ Node.Part (.expr target) (.stmt t) := by
  cases h with
  | plain hn ht =>
    exact ⟨_, hn, Node.mem_children.1 (by simp [Node.children, Stmt.children, ht])⟩
  | annotated hn => exact ⟨_, hn, Node.mem_children.1 (by simp [Node.children, Stmt.children])⟩

theorem State.Assigns.here {target value : Expr} (h : s.Assigns module target value) :
    s.Here module (.expr target) := by
  cases h with
  | plain hn ht =>
    exact Within.part hn rfl (Node.mem_children.1 (by simp [Node.children, Stmt.children, ht]))
  | annotated hn =>
    exact Within.part hn rfl (Node.mem_children.1 (by simp [Node.children, Stmt.children]))

/-- Apart from what calls are found to be, types are given to expressions here
that are names, members or literals. -/
theorem Cause.annotated {i : Nat} {type : Option Ty}
    (h : Cause config module s (.annotate i type)) :
    ∃ e, s.Here module (.expr e) ∧ e.index = i ∧
      ∀ site func args keywords, e ≠ .call site func args keywords := by
  cases h with
  | name hn _ => exact ⟨_, hn, rfl, by rintro _ _ _ _ ⟨⟩⟩
  | member hn _ => exact ⟨_, hn, rfl, by rintro _ _ _ _ ⟨⟩⟩
  | literal hn hl => exact ⟨_, hn, rfl, by rintro _ _ _ _ rfl; cases hl⟩
  | target ha _ => exact ⟨_, ha.here, rfl, by rintro _ _ _ _ ⟨⟩⟩

/-! ## Functions of the module -/

/-- What is analyzed in a function of the module is of the module. -/
theorem Frame.mem_nodes {frame : Frame} {node : Node}
    (h : ∀ d ∈ frame.function, DefinedIn module d) (hn : Within (frame.body module) node) :
    node ∈ module.nodes := by
  unfold Frame.body at hn
  split at hn
  · next d hd => exact hn.mem_nodes_of_function (h d hd)
  · exact hn.mem_nodes

/-- A frame is entered for a function of the module, on top of such functions. -/
theorem Frame.active_enter {frame : Frame} {d : Function}
    (h : ∀ d' ∈ frame.active, DefinedIn module d') (hd : DefinedIn module d) (ns : Namespace) :
    ∀ d' ∈ (frame.enter ns d).active, DefinedIn module d' := by
  intro d' hd'
  rcases List.mem_cons.1 hd' with rfl | hd'
  · exact hd
  · exact h d' hd'

/-- A function that is not active is none of those on the stack. -/
theorem Frame.not_mem_stack {frame : Frame} {d : Function} (h : frame.isActive d = false) :
    d.site.index ∉ frame.stack := by
  intro hmem
  obtain ⟨d', hd', hi⟩ := List.mem_map.1 hmem
  have active : frame.isActive d = true := List.any_eq_true.2 ⟨d', hd', decide_eq_true hi⟩
  rw [h] at active
  cases active

/-- Different functions of a module are not more than the module has. -/
theorem length_le_functions {stack : List Nat} (distinct : stack.Nodup)
    (functions : ∀ i ∈ stack, ∃ d ∈ module.functions, d.site.index = i) :
    stack.length ≤ module.functions.length := by
  have subset : stack ⊆ module.functions.map (·.site.index) := by
    intro i hi
    obtain ⟨d, hd, rfl⟩ := functions i hi
    exact List.mem_map_of_mem hd
  simpa using (distinct.subperm subset).length_le

/-- The functions that a state knows of are those of a module. -/
structure State.Placed (module : Module) (s : State) : Prop where
  function : ∀ d ∈ s.frame.function, DefinedIn module d
  active : ∀ d ∈ s.frame.active, DefinedIn module d
  definitions : ∀ key d, s.env.definitions.get? key = some d → DefinedIn module d

namespace State.Placed

variable {config : Config} {module : Module} {s : State}

/-- What a run comes to is a node of the module. -/
theorem mem_nodes (h : s.Placed module) {node : Node} (hn : s.Here module node) :
    node ∈ module.nodes :=
  Frame.mem_nodes h.function hn

theorem of_calls (h : s.Placed module) {name : String} {args : List Expr} {d : Function}
    {ns : Namespace} (hc : s.Calls module name args d ns) : DefinedIn module d := by
  obtain ⟨id, -, hd⟩ := Environment.definition_ok.1 hc.found
  exact h.definitions _ d hd

theorem act (h : s.Placed module) {action : Action} (hc : Cause config module s action) :
    (s.act action).Placed module := by
  refine ⟨h.function, h.active, fun key d hd => ?_⟩
  cases hc
  case defined definition hn =>
    simp only [State.act_env, Action.get?_define] at hd
    split at hd
    · cases hd
      exact h.mem_nodes hn
    · exact h.definitions key d hd
  case assigned type _ _ => cases type <;> exact h.definitions key d hd
  all_goals exact h.definitions key d hd

theorem enter (h : s.Placed module) {d : Function} (hd : DefinedIn module d) (ns : Namespace) :
    (s.entered ns d).Placed module where
  function := by
    rintro _ ⟨⟩
    exact hd
  active := Frame.active_enter h.active hd ns
  definitions := h.definitions

theorem resume (h : s.Placed module) {s' : State} (h' : s'.Placed module) (name : String)
    (d : Function) : (s'.resumed s.frame name d).Placed module := by
  refine ⟨h.function, h.active, fun key d' hd' => h'.definitions key d' ?_⟩
  revert hd'
  unfold State.resumed State.signature
  cases s'.types.stmts.get? d.site.index <;> exact id

end State.Placed

theorem State.placed_start (module : Module) (table : SymbolTable) (expressions statements : Nat) :
    (State.start table expressions statements).atModule.Placed module where
  function := by rintro _ ⟨⟩
  active := by rintro _ ⟨⟩
  definitions := by rintro _ _ ⟨⟩

end SdkUsage.Inference
