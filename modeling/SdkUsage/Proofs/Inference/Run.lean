/-
Every run that succeeds is made of the steps of `Steps`.

First come exact conditions for single operations, `…_ok`: when they succeed,
with which answer and in which state. From these and one law for sequencing the
operations on calls, assignments and returns are taken apart once, here; later
proofs speak of `Steps` only.
-/
import SdkUsage.Proofs.Inference.Step
import SdkUsage.Proofs.Tree.Walk

namespace SdkUsage.Inference

open SdkUsage.Tree

variable {α β : Type} {s s' : State} {u : Unit} {type : Option Ty} {xs : List α} {value : Expr}
  {node : Node} {f : α → Run β} {b : β} {a : α}
  {question : Environment → Namespace → Except ScopeError α}
  {edit : Annotations → Except OutOfRange Annotations} {i : Nat} {env env' : Environment}
  {body : Run Unit} {P : State → Prop} {site : Site} {params : List (Param Expr)}
  {stmts : List Stmt}

/-! ## Single operations -/

theorem bind_ok {x : Run α} : (x >>= f) s = .ok b s' ↔ ∃ a t, x s = .ok a t ∧ f a t = .ok b s' := by
  simp only [bind, EStateM.bind]
  cases x s with
  | ok a t => simp
  | error e t => simp

theorem pure_ok {b : α} : (pure a : Run α) s = .ok b s' ↔ a = b ∧ s = s' := by
  simp only [pure, EStateM.pure, EStateM.Result.ok.injEq]

theorem get_ok {a : State} : (get : Run State) s = .ok a s' ↔ s = a ∧ s = s' := pure_ok

theorem get_bind {f : State → Run α} : (get >>= f) s = f s s := rfl

theorem note_ok {event : Event} :
    note event s = .ok u s' ↔ s' = { s with trace := event :: s.trace } := by
  constructor
  · rintro ⟨⟩
    rfl
  · rintro rfl
    rfl

theorem ask_eq :
    ask question s = match question s.env s.frame.ns with
      | .ok answer => .ok answer s
      | .error e => .error (.scope e) s := by
  simp only [ask, get_bind]
  cases question s.env s.frame.ns <;> rfl

theorem ask_ok : ask question s = .ok a s' ↔ question s.env s.frame.ns = .ok a ∧ s = s' := by
  rw [ask_eq]
  cases question s.env s.frame.ns <;> simp

/-- A question that has an answer changes nothing. -/
theorem ask_bind (h : question s.env s.frame.ns = .ok a) : (ask question >>= f) s = f a s := by
  have asked : ask question s = .ok a s := ask_ok.2 ⟨h, rfl⟩
  simp only [bind, EStateM.bind, asked]

theorem exprType_ok {expr : Expr} :
    exprType expr s = .ok type s' ↔ s.types.ofExpr? expr = type ∧ s = s' := pure_ok

theorem namespaceHere_ok {ns : Namespace} :
    namespaceHere s = .ok ns s' ↔ s.frame.ns = ns ∧ s = s' := pure_ok

theorem change_eq {edit : Environment → Except ScopeError Environment} :
    change edit s = match edit s.env with
      | .ok env => .ok () { s with env }
      | .error e => .error (.scope e) s := by
  simp only [change, get_bind]
  cases edit s.env <;> rfl

theorem change_ok {edit : Environment → Except ScopeError Environment} :
    change edit s = .ok u s' ↔ ∃ env, edit s.env = .ok env ∧ s' = { s with env } := by
  rw [change_eq]
  cases edit s.env <;> simp [eq_comm]

theorem changeTypes_eq :
    changeTypes edit s = match edit s.types with
      | .ok types => .ok () { s with types }
      | .error e => .error (.range e) s := by
  simp only [changeTypes, get_bind]
  cases edit s.types <;> rfl

theorem changeTypes_ok :
    changeTypes edit s = .ok u s' ↔ ∃ types, edit s.types = .ok types ∧ s' = { s with types } := by
  rw [changeTypes_eq]
  cases edit s.types <;> simp [eq_comm]

/-- A table is changed at numbers that it has. -/
theorem set_ok {table : IndexTable Ty} {value : Option Ty} {f : IndexTable Ty → β} :
    (do return f (← table.set i value) : Except OutOfRange β) = .ok b ↔
      i < table.size ∧ b = f (table.put i value) := by
  unfold IndexTable.set
  split
  · next h => simp [bind, Except.bind, pure, Except.pure, h, eq_comm]
  · next h => simp [bind, Except.bind, h]

theorem annotateExpr_ok {types types' : Annotations} :
    types.annotateExpr i type = .ok types' ↔
      i < types.exprs.size ∧ types' = { types with exprs := types.exprs.put i type } :=
  set_ok

theorem annotateStmt_ok {types types' : Annotations} {type : Ty} :
    types.annotateStmt i type = .ok types' ↔
      i < types.stmts.size ∧ types' = { types with stmts := types.stmts.put i (some type) } :=
  set_ok

/-- What is done to a name is done if the scope has the name. -/
theorem named_ok {new : Environment} {id : Nat} {name : String} :
    (do let _ ← env.symbol id name; return new) = .ok env' ↔
      (∃ symbol, env.symbol id name = .ok symbol) ∧ env' = new := by
  cases env.symbol id name <;> simp [bind, Except.bind, pure, Except.pure, eq_comm]

theorem setType_ok {ns : Namespace} {name : String} :
    env.setType ns name type = .ok env' ↔
      (∃ symbol, env.symbol ns.scope name = .ok symbol) ∧
        env' = (Action.bind ns.scope name type).onEnv env := by
  cases type <;> exact named_ok

theorem register_ok {ns : Namespace} {name : String} {d : Function} :
    env.register ns name d = .ok env' ↔
      (∃ symbol, env.symbol ns.scope name = .ok symbol) ∧
        env' = (Action.define ns.scope name d).onEnv env :=
  named_ok

/-! ## Actions -/

/-- An operation does an action and nothing else. -/
def Does (run : Run Unit) (action : Action) : Prop :=
  ∀ {s s' u}, run s = .ok u s' ↔ action.Fits s ∧ s' = s.act action

/-- Types of nodes are changed, and that is noted. -/
theorem changeTypes_does {event : Event} {action : Action}
    (h : ∀ {s : State} {types}, edit s.types = .ok types ↔
      action.Fits s ∧ types = action.onTypes s.types) (henv : ∀ env, action.onEnv env = env)
    (hevents : action.events = [event]) : Does (do changeTypes edit; note event) action := by
  intro s s' u
  have after : s.act action = ⟨s.env, action.onTypes s.types, s.frame, event :: s.trace⟩ := by
    rw [State.act, henv, hevents, List.singleton_append]
  simp only [bind_ok, changeTypes_ok, h, note_ok, after]
  constructor
  · rintro ⟨_, _, ⟨_, ⟨hf, rfl⟩, rfl⟩, rfl⟩
    exact ⟨hf, rfl⟩
  · rintro ⟨hf, rfl⟩
    exact ⟨(), _, ⟨_, ⟨hf, rfl⟩, rfl⟩, rfl⟩

theorem annotate_does (i : Nat) (type : Option Ty) : Does (annotate i type) (.annotate i type) :=
  changeTypes_does annotateExpr_ok (fun _ => rfl) rfl

theorem record_does (i : Nat) (type : Ty) :
    Does (do changeTypes (·.annotateStmt i type); note (.returned i type)) (.record i type) :=
  changeTypes_does annotateStmt_ok (fun _ => rfl) rfl

theorem credit_does (i : Nat) (type : Ty) :
    Does (do changeTypes (·.annotateStmt i type); note (.credited i type)) (.credit i type) :=
  changeTypes_does annotateStmt_ok (fun _ => rfl) rfl

theorem bindIn_does (ns : Namespace) (name : String) (type : Option Ty) :
    Does (bindIn ns name type) (.bind ns.scope name type) := by
  intro s s' u
  simp only [bindIn, bind_ok, change_ok, setType_ok, note_ok]
  constructor
  · rintro ⟨_, _, ⟨_, ⟨h, rfl⟩, rfl⟩, rfl⟩
    exact ⟨h, rfl⟩
  · rintro ⟨h, rfl⟩
    exact ⟨(), _, ⟨_, ⟨h, rfl⟩, rfl⟩, rfl⟩

theorem bindName_ok {name : String} :
    bindName name type s = .ok u s' ↔
      (Action.bind s.frame.ns.scope name type).Fits s ∧
        s' = s.act (.bind s.frame.ns.scope name type) := by
  simp only [bindName, bind_ok, namespaceHere_ok]
  constructor
  · rintro ⟨_, _, ⟨rfl, rfl⟩, h⟩
    exact (bindIn_does _ _ _).1 h
  · intro h
    exact ⟨_, _, ⟨rfl, rfl⟩, (bindIn_does _ _ _).2 h⟩

theorem define_ok {d : Function} :
    define d s = .ok u s' ↔
      (Action.define s.frame.ns.scope d.name.text d).Fits s ∧
        s' = s.act (.define s.frame.ns.scope d.name.text d) := by
  simp only [define, bind_ok, namespaceHere_ok, change_ok, register_ok, note_ok]
  constructor
  · rintro ⟨_, _, ⟨rfl, rfl⟩, _, _, ⟨_, ⟨h, rfl⟩, rfl⟩, rfl⟩
    exact ⟨h, rfl⟩
  · rintro ⟨h, rfl⟩
    exact ⟨_, _, ⟨rfl, rfl⟩, (), _, ⟨_, ⟨h, rfl⟩, rfl⟩, rfl⟩

/-- The analysis of a body, with how it ends in either case. -/
theorem inside_eq {ns : Namespace} {d : Function} :
    inside ns d body s = match body (s.entered ns d) with
      | .ok _ t => .ok () (t.left s.frame d)
      | .error e t => .error e (t.left s.frame d) := rfl

theorem inside_ok {ns : Namespace} {d : Function} :
    inside ns d body s = .ok u s' ↔
      ∃ t, body (s.entered ns d) = .ok () t ∧ s' = t.left s.frame d := by
  rw [inside_eq]
  cases body (s.entered ns d) <;> simp [eq_comm]

theorem skip_does (i : Nat) : Does (note (.skipped i)) (.skip i) := by
  intro s s' u
  rw [note_ok]
  exact ⟨fun h => ⟨trivial, h⟩, fun h => h.2⟩

/-! ## Failures -/

theorem bind_error {x : Run α} {e : InferenceError} :
    (x >>= f) s = .error e s' ↔
      x s = .error e s' ∨ ∃ a t, x s = .ok a t ∧ f a t = .error e s' := by
  simp only [bind, EStateM.bind]
  cases x s with
  | ok a t => simp
  | error e' t => simp

/-- An operation that fails changes nothing, and has not run out of room. -/
def Intact (run : Run α) : Prop := ∀ ⦃s s' e⦄, run s = .error e s' → s' = s ∧ e ≠ .exhausted

theorem note_intact (event : Event) : Intact (note event) := by
  intro s s' e h
  cases h

theorem Intact.note {x : Run Unit} (hx : Intact x) (event : Event) :
    Intact (do x; note event) := by
  intro s s' e h
  rcases bind_error.1 h with h | ⟨_, _, -, h⟩
  · exact hx h
  · cases h

theorem change_intact (edit : Environment → Except ScopeError Environment) :
    Intact (change edit) := by
  intro s s' e h
  rw [change_eq] at h
  split at h <;> cases h
  exact ⟨rfl, nofun⟩

theorem changeTypes_intact (edit : Annotations → Except OutOfRange Annotations) :
    Intact (changeTypes edit) := by
  intro s s' e h
  rw [changeTypes_eq] at h
  split at h <;> cases h
  exact ⟨rfl, nofun⟩

theorem annotate_intact (i : Nat) (type : Option Ty) : Intact (annotate i type) :=
  (changeTypes_intact _).note _

theorem bindIn_intact (ns : Namespace) (name : String) (type : Option Ty) :
    Intact (bindIn ns name type) :=
  (change_intact _).note _

theorem bindName_intact (name : String) (type : Option Ty) : Intact (bindName name type) :=
  fun s _ _ h => bindIn_intact s.frame.ns name type h

theorem define_intact (d : Function) : Intact (define d) :=
  fun _ _ _ h => (change_intact _).note _ h

theorem inside_error {ns : Namespace} {d : Function} {e : InferenceError}
    (h : inside ns d body s = .error e s') :
    ∃ t, body (s.entered ns d) = .error e t ∧ s' = t.left s.frame d := by
  rw [inside_eq] at h
  split at h
  · cases h
  · next t ht =>
    cases h
    exact ⟨t, ht, rfl⟩

/-! ## Sequences -/

variable {config : Config} {module : Module} {u : Unit}

/-- Operations that lead from state to state do so one after another. -/
theorem forM_chain {f : α → Run Unit} {R : State → State → Prop} (refl : ∀ s, R s s)
    (trans : ∀ {a b c}, R a b → R b c → R a c)
    (h : ∀ x ∈ xs, ∀ {s s' u}, P s → f x s = .ok u s' → R s s' ∧ P s') (hp : P s)
    (hr : xs.forM f s = .ok u s') : R s s' ∧ P s' := by
  induction xs generalizing s with
  | nil =>
    obtain ⟨-, rfl⟩ := pure_ok.1 hr
    exact ⟨refl _, hp⟩
  | cons x xs ih =>
    obtain ⟨_, t, hx, hr⟩ := bind_ok.1 hr
    obtain ⟨first, ht⟩ := h x (by simp) hp hx
    obtain ⟨rest, hq⟩ := ih (fun y hy => h y (by simp [hy])) ht hr
    exact ⟨trans first rest, hq⟩

/-! ## Where runs lead -/

/-- How runs go on, and how they fail. -/
structure Ways where
  steps : State → State → Prop
  fails : State → InferenceError → State → Prop
  refl : ∀ s, steps s s
  trans : ∀ {a b c}, steps a b → steps b c → steps a c
  before : ∀ {a b c e}, steps a b → fails b e c → fails a e c

/-- Where a run leads from a state, whether it succeeds or fails. -/
structure Leads (ways : Ways) (s : State) (run : Run α) (post : α → State → Prop) : Prop where
  ok : ∀ {a s'}, run s = .ok a s' → ways.steps s s' ∧ post a s'
  error : ∀ {e s'}, run s = .error e s' → ways.fails s e s'

namespace Leads

variable {ways : Ways} {post post' : α → State → Prop}

theorem pure {a : α} (h : post a s) : Leads ways s (pure a) post where
  ok hr := by cases hr; exact ⟨ways.refl s, h⟩
  error hr := by cases hr

theorem bind {x : Run β} {f : β → Run α} {middle : β → State → Prop} (hx : Leads ways s x middle)
    (hf : ∀ b t, ways.steps s t → middle b t → Leads ways t (f b) post) :
    Leads ways s (x >>= f) post where
  ok hr := by
    obtain ⟨b, t, hb, hr⟩ := bind_ok.1 hr
    obtain ⟨first, hm⟩ := hx.ok hb
    obtain ⟨rest, hp⟩ := (hf b t first hm).ok hr
    exact ⟨ways.trans first rest, hp⟩
  error hr := by
    rcases bind_error.1 hr with hr | ⟨b, t, hb, hr⟩
    · exact hx.error hr
    · obtain ⟨first, hm⟩ := hx.ok hb
      exact ways.before first ((hf b t first hm).error hr)

theorem weaken {x : Run α} (h : Leads ways s x post)
    (hp : ∀ a s', ways.steps s s' → post a s' → post' a s') : Leads ways s x post' where
  ok hr := ⟨(h.ok hr).1, hp _ _ (h.ok hr).1 (h.ok hr).2⟩
  error := h.error

/-- What only looks at the state may come first. -/
theorem look {x : Run β} {f : β → Run α} (hx : x s = .ok b s) (hf : Leads ways s (f b) post) :
    Leads ways s (x >>= f) post := by
  have same : (x >>= f) s = f b s := by simp only [Bind.bind, EStateM.bind, hx]
  exact ⟨fun hr => hf.ok (same ▸ hr), fun hr => hf.error (same ▸ hr)⟩

theorem ask {question : Environment → Namespace → Except ScopeError β} {f : β → Run α}
    (ok : ∀ b, question s.env s.frame.ns = .ok b → Leads ways s (f b) post)
    (error : ∀ e, question s.env s.frame.ns = .error e → ways.fails s (.scope e) s) :
    Leads ways s (ask question >>= f) post := by
  cases hq : question s.env s.frame.ns with
  | ok b => exact .look (ask_ok.2 ⟨hq, rfl⟩) (ok b hq)
  | error e =>
    have failed : Inference.ask question s = .error (.scope e) s := by rw [ask_eq, hq]
    have same : (Inference.ask question >>= f) s = .error (.scope e) s := bind_error.2 (.inl failed)
    refine ⟨fun hr => ?_, fun hr => ?_⟩ <;> cases same.symm.trans hr
    exact error e hq

theorem forEach {f : (x : α) → x ∈ xs → Run Unit}
    (h : ∀ x hx t, P t → Leads ways t (f x hx) fun _ => P) (hp : P s) :
    Leads ways s (forEach xs f) fun _ => P := by
  induction xs generalizing s with
  | nil => exact pure hp
  | cons x xs ih => exact (h x _ s hp).bind fun _ t _ ht => ih (fun y hy => h y _) ht

theorem forM {f : α → Run Unit} (h : ∀ x ∈ xs, ∀ t, P t → Leads ways t (f x) fun _ => P)
    (hp : P s) : Leads ways s (xs.forM f) fun _ => P := by
  rw [forM_eq_forEach]
  exact forEach h hp

end Leads

/-- Actions, and what stops them. -/
def acting (config : Config) (module : Module) : Ways where
  steps := Acts config module
  fails s e s' := Acts config module s s' ∧ Fault config module s' e
  refl := .refl
  trans := .trans
  before h h' := ⟨h.trans h'.1, h'.2⟩

/-- An action is done if it fits. -/
theorem Leads.act {run : Run Unit} {action : Action} (hc : Cause config module s action)
    (hn : action.isCall = false)
    (does : ∀ {u s'}, run s = .ok u s' ↔ action.Fits s ∧ s' = s.act action) (hi : Intact run) :
    Leads (acting config module) s run fun _ s' => action.Fits s ∧ s' = s.act action where
  ok hr := by
    obtain ⟨hf, rfl⟩ := does.1 hr
    exact ⟨.one hc hn hf, hf, rfl⟩
  error hr := by
    obtain ⟨rfl, he⟩ := hi hr
    refine ⟨.refl _, .unfit hc (fun hf => ?_) he⟩
    cases hr.symm.trans (does.2 ⟨hf, rfl⟩ : run _ = .ok () _)

/-! ## Assignments -/

theorem assignedType_leads (hv : s.Here module (.expr value)) :
    Leads (acting config module) s (assignedType value) fun type s' => ∀ t ∈ type, s'.Known t := by
  refine .look (exprType_ok.2 ⟨rfl, rfl⟩) ?_
  split
  · next text _ hl =>
    -- A literal without a type takes it now.
    refine (Leads.act (.literal hv hl) rfl (annotate_does _ _) (annotate_intact _ _)).bind ?_
    rintro _ _ - ⟨hf, rfl⟩
    refine .pure ?_
    rintro t ⟨⟩
    exact .expr (IndexTable.get?_put_self _ hf)
  · exact .pure fun t h => .expr h

theorem assignTarget_leads {target : Expr} (ha : s.Assigns module target value)
    (hk : ∀ t ∈ type, s.Known t) :
    Leads (acting config module) s (assignTarget type target) fun _ s' => ∀ t ∈ type, s'.Known t := by
  unfold assignTarget
  split
  · next site name =>
    refine (Leads.act (.assigned ha hk) rfl bindName_ok (bindName_intact _ _)).bind ?_
    rintro _ _ - ⟨-, rfl⟩
    -- The name holds the type from now on.
    have known : ∀ t ∈ type, (s.act (.bind s.frame.ns.scope name type)).Known t := by
      rintro t ⟨⟩
      exact .name (SortedMap.get?_insert_self ..)
    have here : (s.act (.bind s.frame.ns.scope name type)).Assigns module (.name site name) value :=
      ha.of_frame rfl
    refine (Leads.act (.target here known) rfl (annotate_does _ _) (annotate_intact _ _)).weaken ?_
    rintro _ _ - ⟨hf, rfl⟩ t ⟨⟩
    exact .expr (IndexTable.get?_put_self _ hf)
  · exact .pure hk

theorem assign_leads {targets : List Expr} (hv : s.Here module (.expr value))
    (ha : ∀ target ∈ targets, s.Assigns module target value) :
    Leads (acting config module) s (assign targets value) fun _ _ => True := by
  refine (assignedType_leads hv).bind fun type t first known => ?_
  -- Targets are assigned one after another, and the value's type stays known.
  refine Leads.weaken (.forM (P := fun t => t.frame = s.frame ∧ ∀ ty ∈ type, t.Known ty) ?_
    ⟨first.frame_eq, known⟩) fun _ _ _ _ => trivial
  intro target hmem t hp
  exact (assignTarget_leads ((ha target hmem).of_frame hp.1) hp.2).weaken fun _ _ acts known =>
    ⟨acts.frame_eq.trans hp.1, known⟩

/-! ## Imports, returns and definitions -/

theorem bindImports_leads {member : String} {type : Ty} {names : List Alias}
    (hc : ∀ t : State, t.frame = s.frame → ∀ a ∈ names, a.name = member →
      Cause config module t (.bind t.frame.ns.scope a.boundName (some type))) :
    Leads (acting config module) s (bindImports member type names) fun _ _ => True := by
  refine Leads.weaken (.forM (P := fun t => t.frame = s.frame) ?_ rfl) fun _ _ _ _ => trivial
  intro a ha t ht
  rw [List.mem_filter, decide_eq_true_eq] at ha
  exact (Leads.act (hc t ht a ha.1 ha.2) rfl bindName_ok (bindName_intact _ _)).weaken
    fun _ _ acts _ => acts.frame_eq.trans ht

theorem recordReturn_leads (hn : s.Here module (.stmt (.returning site (some value)))) :
    Leads (acting config module) s (recordReturn site.index value) fun _ _ => True := by
  refine .look (exprType_ok.2 ⟨rfl, rfl⟩) ?_
  split
  · next type ht =>
    rw [← bind_assoc]
    refine (Leads.act (.returned hn ht) rfl (record_does _ _)
      ((changeTypes_intact _).note _)).bind ?_
    rintro _ _ - ⟨-, rfl⟩
    -- What is credited is the function whose body is analyzed.
    refine .look rfl ?_
    split
    · next d hd =>
      have here : (s.act (.record site.index type)).Here module
          (.stmt (.returning site (some value))) := hn
      exact (Leads.act (.credited here ht hd) rfl (credit_does _ _)
        ((changeTypes_intact _).note _)).weaken fun _ _ _ _ => trivial
    · exact .pure trivial
  · exact .pure trivial

/-! ## Calls -/

/-- Binding names changes nothing about which functions are called. -/
theorem State.Calls.bind {name : String} {args : List Expr} {d : Function} {ns : Namespace}
    (h : s.Calls module name args d ns) (scope : Nat) (id : String) (type : Option Ty) :
    (s.act (.bind scope id type)).Calls module name args d ns := by
  refine ⟨h.here, ?_, ?_⟩
  · cases type <;> exact h.found
  · cases type <;> exact h.scope

/-- Arguments are passed by binding names of the function's scope. -/
theorem passArguments_chain {R : State → State → Prop} (refl : ∀ s, R s s)
    (trans : ∀ {a b c}, R a b → R b c → R a c) {ns : Namespace}
    (bind : ∀ t name type, R t (t.act (.bind ns.scope name (some type)))) {args : List Expr}
    (hr : passArguments ns args params s = .ok u s') : R s s' := by
  refine (forM_chain (P := fun _ => True) refl trans ?_ trivial hr).1
  intro (arg, param) _ t t' _ _ hr
  obtain ⟨_, _, he, hr⟩ := bind_ok.1 hr
  obtain ⟨rfl, rfl⟩ := exprType_ok.1 he
  cases ht : t.types.ofExpr? arg with
  | none =>
    rw [ht] at hr
    obtain ⟨-, rfl⟩ := pure_ok.1 hr
    exact ⟨refl _, trivial⟩
  | some type =>
    rw [ht] at hr
    obtain ⟨-, rfl⟩ := (bindIn_does _ _ _).1 hr
    exact ⟨bind t _ type, trivial⟩

theorem passArguments_frame {ns : Namespace} {args : List Expr}
    (hr : passArguments ns args params s = .ok u s') : s'.frame = s.frame :=
  passArguments_chain (R := fun a b => b.frame = a.frame) (fun _ => rfl) (fun h h' => h'.trans h)
    (fun _ _ _ => rfl) hr

theorem passArguments_types {ns : Namespace} {args : List Expr}
    (hr : passArguments ns args params s = .ok u s') : s'.types = s.types :=
  passArguments_chain (R := fun a b => b.types = a.types) (fun _ => rfl) (fun h h' => h'.trans h)
    (fun _ _ _ => rfl) hr

section Call

variable {name : String} {args : List Expr} {d : Function} {ns : Namespace}
  (hc : s.Calls module name args d ns) (hfree : Free config s d)

include hc hfree

theorem passArguments_leads :
    Leads (acting config module) s (passArguments ns args d.params.args)
      fun _ s' => s'.Calls module name args d ns ∧ Free config s' d := by
  refine .forM (P := fun t => t.Calls module name args d ns ∧ Free config t d) ?_ ⟨hc, hfree⟩
  intro (arg, param) hmem t ⟨hc, hfree⟩
  refine .look (exprType_ok.2 ⟨rfl, rfl⟩) ?_
  split
  · next type ht =>
    refine (Leads.act (.argument hc hfree hmem ht) rfl (bindIn_does _ _ _)
      (bindIn_intact _ _ _)).weaken ?_
    rintro _ _ - ⟨-, rfl⟩
    exact ⟨hc.bind _ _ _, hfree⟩
  · exact .pure ⟨hc, hfree⟩

theorem passArguments_acts (hr : passArguments ns args d.params.args s = .ok u s') :
    Acts config module s s' ∧ s'.Calls module name args d ns ∧ Free config s' d :=
  (passArguments_leads hc hfree).ok hr

end Call

/-- Analyzing a body is a run, wherever it is entered. -/
def Enters (config : Config) (module : Module) (enter : Function → Run Unit) : Prop :=
  ∀ {d s s' u}, s.frame.function = some d → enter d s = .ok u s' → Steps config module s s'

/-- **How a run fails:** at a fault, with a call whose type there is no room for, in
a body, or behind a body if the name that is called cannot take its type. -/
inductive Fails (config : Config) (module : Module) (enter : Function → Run Unit) (s : State) :
    InferenceError → State → Prop
  | fault {s' e} : Steps config module s s' → Fault config module s' e →
    Fails config module enter s e s'
  | found {s' call callee result e} : Steps config module s s' →
    Cause config module s' (.call call callee result) →
    ¬ (Action.call call callee result).Fits s' → e ≠ .exhausted →
    Fails config module enter s e { s' with trace := .called call callee result :: s'.trace }
  | body {s₁ s₂ name args d ns e} : Steps config module s s₁ →
    s₁.Calls module name args d ns → Free config s₁ d →
    enter d (s₁.entered ns d) = .error e s₂ → Fails config module enter s e (s₂.left s₁.frame d)
  | unsigned {s₁ s₂ name args d ns e} : Steps config module s s₁ →
    s₁.Calls module name args d ns → Free config s₁ d →
    Steps config module (s₁.entered ns d) s₂ → ¬ (s₂.signature s₁.frame name d).Fits s₂ →
    e ≠ .exhausted → Fails config module enter s e (s₂.left s₁.frame d)

/-- Runs that may go into functions. -/
def stepping (config : Config) (module : Module) (enter : Function → Run Unit) : Ways where
  steps := Steps config module
  fails := Fails config module enter
  refl := .refl
  trans := .trans
  before h h' := by
    cases h' with
    | fault steps hf => exact .fault (h.trans steps) hf
    | found steps hc hf he => exact .found (h.trans steps) hc hf he
    | body steps hc hfree hb => exact .body (h.trans steps) hc hfree hb
    | unsigned steps hc hfree hb hf he => exact .unsigned (h.trans steps) hc hfree hb hf he

theorem Leads.steps {enter : Function → Run Unit} {run : Run α} {post : α → State → Prop}
    (h : Leads (acting config module) s run post) :
    Leads (stepping config module enter) s run post where
  ok hr := ⟨(h.ok hr).1.steps, (h.ok hr).2⟩
  error hr := .fault (h.error hr).1.steps (h.error hr).2

section Enter

variable {enter : Function → Run Unit} (he : Enters config module enter)

include he

/-- What a call does with the body of a function. -/
theorem body_leads {name : String} {args : List Expr} {d : Function} {ns : Namespace}
    (hc : s.Calls module name args d ns) (hfree : Free config s d) :
    Leads (stepping config module enter) s (do
        inside ns d (enter d)
        let type := (← get).types.stmts.get? d.site.index
        bindName name type
        return returnType type)
      fun result s' => ∃ i, result = returnType (s'.types.stmts.get? i) where
  ok hr := by
    simp only [bind_ok, inside_ok, get_ok, bindName_ok, pure_ok] at hr
    obtain ⟨_, _, ⟨s₂, hb, rfl⟩, _, _, ⟨rfl, rfl⟩, _, _, ⟨hf, rfl⟩, rfl, rfl⟩ := hr
    exact ⟨.call (.refl s) hc hfree (he rfl hb) hf, d.site.index, rfl⟩
  error hr := by
    rcases bind_error.1 hr with hr | ⟨_, _, hi, hr⟩
    · obtain ⟨s₂, hb, rfl⟩ := inside_error hr
      exact .body (.refl s) hc hfree hb
    · obtain ⟨s₂, hb, rfl⟩ := inside_ok.1 hi
      rw [get_bind] at hr
      rcases bind_error.1 hr with hr | ⟨_, _, -, hr⟩
      · obtain ⟨rfl, hne⟩ := bindName_intact _ _ hr
        refine .unsigned (.refl s) hc hfree (he rfl hb) (fun hf => ?_) hne
        cases hr.symm.trans ((bindName_ok (u := ())).2 ⟨hf, rfl⟩)
      · cases hr

theorem callFunction_leads {callee : Site} {name : String} {args : List Expr}
    {keywords : List (Keyword Expr)}
    (hn : s.Here module (.expr (.call site (.name callee name) args keywords)))
    (hd : s.env.defines s.frame.ns name = true) :
    Leads (stepping config module enter) s (callFunction config enter name args)
      fun result s' => result = none ∨ ∃ i, result = returnType (s'.types.stmts.get? i) := by
  refine .ask (fun d found => ?_) fun e failed => ?_
  · refine .ask (fun ns scope => ?_) fun e failed => .fault (.refl s) (.homeless hn found failed)
    have calls : s.Calls module name args d ns := ⟨⟨site, callee, keywords, hn⟩, found, scope⟩
    refine .look rfl ?_
    split
    · next hg =>
      rw [Bool.and_eq_true] at hg
      exact (Leads.act (.skipped calls hg.1 hg.2) rfl (skip_does _)
        (note_intact _)).steps.bind fun _ _ _ _ => .pure (.inl rfl)
    · next hg =>
      refine (passArguments_leads calls (Bool.eq_false_iff.2 hg)).steps.bind ?_
      rintro _ s₁ - ⟨calls', free⟩
      exact (body_leads he calls' free).weaken fun _ _ _ => .inr
  · rw [Environment.defines, failed] at hd
    cases hd

theorem callType_leads {func : Expr} {args : List Expr} {keywords : List (Keyword Expr)}
    (hn : s.Here module (.expr (.call site func args keywords))) :
    Leads (stepping config module enter) s (callType config enter func args keywords)
      fun result s' => Outcome s' args keywords func (s.types.ofExpr? func) result := by
  refine .look rfl ?_
  generalize hc : s.types.ofExpr? func = callee
  split
  · exact .pure (.client hc)
  · exact .pure (.method hc)
  · exact .pure (.signature hc)
  · split
    · next hd =>
      refine (callFunction_leads he hn hd).weaken ?_
      rintro _ _ - (rfl | ⟨i, rfl⟩)
      · exact .nothing
      · exact .body
    · exact .pure .nothing
  · exact .pure .nothing

end Enter

/-! ## Nodes -/

/-- The parts of a node that are analyzed with it are all of them, unless the
node has a scope of its own. -/
theorem mem_analyzed {child : Node} :
    child ∈ node.analyzed ↔ node.opensScope = false ∧ Node.Part child node := by
  rw [← Node.mem_children]
  unfold Node.analyzed
  split
  · simp [Node.opensScope]
  · simp [Node.opensScope]
  · simp [Node.opensScope]
  · simp only [List.mem_cons, List.not_mem_nil, or_false, Node.opensScope, Node.children,
      Stmt.children, exprNodes, Option.toList_some, List.map_cons, List.map_nil, true_and]
    exact or_left_comm
  · next h₁ h₂ h₃ h₄ =>
    have closed : node.opensScope = false := by
      unfold Node.opensScope
      split
      · next a b c => exact absurd rfl (h₁ a b c)
      · next d => exact absurd rfl (h₂ d)
      · next d => exact absurd rfl (h₃ d)
      · rfl
    simp [closed]

theorem State.Here.part {node child : Node} (h : s.Here module node)
    (hc : child ∈ node.analyzed) : s.Here module child :=
  Within.part h (mem_analyzed.1 hc).1 (mem_analyzed.1 hc).2

theorem concludeStmt_leads {t : Stmt} (hn : s.Here module (.stmt t)) :
    Leads (acting config module) s (concludeStmt config t) fun _ _ => True := by
  have part : ∀ {e : Expr}, .expr e ∈ (Node.stmt t).analyzed → s.Here module (.expr e) :=
    fun h => hn.part h
  unfold concludeStmt
  split
  · next targets value =>
    refine assign_leads (part ?_) fun target ht => .plain hn ht
    exact mem_analyzed.2 ⟨rfl, Node.mem_children.1 (by simp [Node.children, Stmt.children])⟩
  · next target hint value =>
    refine assign_leads (part (by simp [Node.analyzed])) fun target ht => ?_
    cases List.mem_singleton.1 ht
    exact .annotated hn
  · exact bindImports_leads fun t ht a ha hm => .importModule (hn.of_frame ht) ha hm
  · split
    · next h =>
      obtain ⟨rfl, rfl⟩ := h
      exact bindImports_leads fun t ht a ha hm => .importFactory (hn.of_frame ht) ha hm
    · exact .pure trivial
  · exact (Leads.act (.defined hn) rfl define_ok (define_intact _)).weaken fun _ _ _ _ => trivial
  · exact recordReturn_leads hn
  · exact .pure trivial

theorem concludeStmt_acts {t : Stmt} (hn : s.Here module (.stmt t))
    (hr : concludeStmt config t s = .ok u s') : Acts config module s s' :=
  ((concludeStmt_leads hn).ok hr).1

section Visit

variable {enter : Function → Run Unit} (he : Enters config module enter)

include he

theorem concludeExpr_leads {x : Expr} (hn : s.Here module (.expr x)) :
    Leads (stepping config module enter) s (concludeExpr config enter x) fun _ _ => True := by
  unfold concludeExpr
  split
  · refine .ask (fun type ht => ?_) fun e ht => .fault (.refl s) (.unknown hn ht)
    exact (Leads.act (.name hn ht) rfl (annotate_does _ _) (annotate_intact _ _)).steps.weaken
      fun _ _ _ _ => trivial
  · next site value attr =>
    refine .look (exprType_ok.2 ⟨rfl, rfl⟩) ?_
    cases ht : memberType config attr.text (s.types.ofExpr? value) with
    | none => exact .pure trivial
    | some type =>
      exact (Leads.act (.member hn ht) rfl (annotate_does _ _) (annotate_intact _ _)).steps.weaken
        fun _ _ _ _ => trivial
  · next site func args keywords =>
    refine .look (exprType_ok.2 ⟨rfl, rfl⟩) ((callType_leads he hn).bind fun result t first hc => ?_)
    have cause : Cause config module t (.call site.index (s.types.ofExpr? func) result) :=
      .called (first.here hn) hc
    cases result with
    | none =>
      refine ⟨fun hr => ?_, fun hr => by cases hr⟩
      cases hr
      exact ⟨.one cause trivial, trivial⟩
    | some type =>
      refine ⟨fun hr => ?_, fun hr => ?_⟩
      · obtain ⟨_, _, hnote, hr⟩ := bind_ok.1 hr
        obtain rfl := note_ok.1 hnote
        obtain ⟨hf, rfl⟩ := (annotate_does _ _).1 hr
        exact ⟨.one cause hf, trivial⟩
      · rcases bind_error.1 hr with hr | ⟨_, _, hnote, hr⟩
        · cases hr
        · obtain rfl := note_ok.1 hnote
          obtain ⟨rfl, hne⟩ := annotate_intact _ _ hr
          refine .found (.refl t) cause (fun hf => ?_) hne
          cases hr.symm.trans ((annotate_does _ _ (u := ())).2 ⟨hf, rfl⟩)
  · exact .pure trivial

theorem conclude_leads (hn : s.Here module node) :
    Leads (stepping config module enter) s (conclude config enter node) fun _ _ => True := by
  cases node with
  | expr e => exact concludeExpr_leads he hn
  | stmt t => exact (concludeStmt_leads hn).steps

theorem conclude_steps (hn : s.Here module node) (hr : conclude config enter node s = .ok u s') :
    Steps config module s s' :=
  ((conclude_leads he hn).ok hr).1

theorem visit_leads {node : Node} {s : State} (hn : s.Here module node) :
    Leads (stepping config module enter) s (visit config enter node) fun _ _ => True := by
  rw [visit]
  refine Leads.bind (.forEach (P := fun t => t.frame = s.frame) ?_ rfl) fun _ t parts _ =>
    conclude_leads he (parts.here hn)
  intro child hc t ht
  exact (visit_leads ((hn.part hc).of_frame ht)).weaken fun _ _ steps _ => steps.frame_eq.trans ht
termination_by node.rank
decreasing_by exact Node.rank_lt_of_mem_children (Node.mem_children_of_mem_analyzed hc)

/-- **Analyzing a node is a run.** -/
theorem visit_steps (hn : s.Here module node) (hr : visit config enter node s = .ok u s') :
    Steps config module s s' :=
  ((visit_leads he hn).ok hr).1

theorem visitAll_leads (hn : ∀ t ∈ stmts, s.Here module (.stmt t)) :
    Leads (stepping config module enter) s (visitAll config enter stmts) fun _ _ => True := by
  refine Leads.weaken (.forM (P := fun t => t.frame = s.frame) ?_ rfl) fun _ _ _ _ => trivial
  intro stmt hm t ht
  exact (visit_leads he ((hn stmt hm).of_frame ht)).weaken fun _ _ steps _ =>
    steps.frame_eq.trans ht

theorem visitAll_steps (hn : ∀ t ∈ stmts, s.Here module (.stmt t))
    (hr : visitAll config enter stmts s = .ok u s') : Steps config module s s' :=
  ((visitAll_leads he hn).ok hr).1

/-! ## Where a run comes -/

omit he

theorem forEach_steps {f : (x : α) → x ∈ xs → Run Unit}
    (h : ∀ x hx {t t' u}, t.frame = s.frame → f x hx t = .ok u t' → Steps config module t t')
    (hr : forEach xs f s = .ok u s') : Steps config module s s' := by
  suffices general : ∀ t, t.frame = s.frame → forEach xs f t = .ok u s' →
      Steps config module t s' from general s rfl hr
  clear hr
  induction xs with
  | nil =>
    intro t _ hr
    obtain ⟨-, rfl⟩ := pure_ok.1 hr
    exact .refl _
  | cons x xs ih =>
    intro t ht hr
    obtain ⟨_, t', hx, hr⟩ := bind_ok.1 hr
    have first := h x _ ht hx
    exact first.trans (ih (fun y hy => h y _) t' (first.frame_eq.trans ht) hr)

theorem forEach_passes {f : (x : α) → x ∈ xs → Run Unit}
    (h : ∀ x hx {t t' u}, t.frame = s.frame → f x hx t = .ok u t' → Steps config module t t')
    {x : α} (hx : x ∈ xs) (hr : forEach xs f s = .ok u s') :
    ∃ t t', Steps config module s t ∧ f x hx t = .ok () t' ∧ Steps config module t' s' := by
  induction xs generalizing s with
  | nil => cases hx
  | cons y ys ih =>
    obtain ⟨_, t, hy, hr⟩ := bind_ok.1 hr
    have first := h y _ rfl hy
    have rest : ∀ x hx {t' t'' u}, t'.frame = t.frame →
        f x (List.mem_cons_of_mem y hx) t' = .ok u t'' → Steps config module t' t'' :=
      fun x hx _ _ _ ht => h x _ (ht.trans first.frame_eq)
    rcases List.mem_cons.1 hx with rfl | hxs
    · exact ⟨s, t, .refl s, hy, forEach_steps rest hr⟩
    · obtain ⟨t₁, t₂, before, hf, after⟩ := ih rest hxs hr
      exact ⟨t₁, t₂, first.trans before, hf, after⟩

include he

/-- **A run over a node comes to all that stands in it outside of
definitions.** -/
theorem visit_passes {node n : Node} {s s' : State} {u : Unit} (hn : s.Here module node)
    (ho : n ∈ node.own) (hr : visit config enter node s = .ok u s') :
    ∃ t t', Steps config module s t ∧ visit config enter n t = .ok () t' ∧
      Steps config module t' s' := by
  cases hs : node.opensScope with
  | true =>
    rw [Node.own_of_opensScope hs, List.mem_singleton] at ho
    subst ho
    exact ⟨s, s', .refl s, hr, .refl s'⟩
  | false =>
    rw [Node.own_of_not_opensScope hs, List.mem_cons, List.mem_flatMap] at ho
    rcases ho with rfl | ⟨child, hc, ho⟩
    · exact ⟨s, s', .refl s, hr, .refl s'⟩
    · have ha : child ∈ node.analyzed := mem_analyzed.2 ⟨hs, Node.mem_children.1 hc⟩
      rw [visit] at hr
      obtain ⟨_, t, hparts, hr⟩ := bind_ok.1 hr
      have part : ∀ x (hx : x ∈ node.analyzed) {t t' : State} {u : Unit}, t.frame = s.frame →
          visit config enter x t = .ok u t' → Steps config module t t' :=
        fun x hx _ _ _ ht => visit_steps he ((hn.part hx).of_frame ht)
      obtain ⟨t₁, t₂, before, hchild, after⟩ := forEach_passes part ha hparts
      obtain ⟨t₃, t₄, before', hvisit, after'⟩ :=
        visit_passes ((hn.part ha).of_frame before.frame_eq) ho hchild
      have all : Steps config module s t := before.trans ((visit_steps he
        ((hn.part ha).of_frame before.frame_eq) hchild).trans after)
      exact ⟨t₃, t₄, before.trans before', hvisit,
        (after'.trans after).trans (conclude_steps he (all.here hn) hr)⟩
termination_by node.rank
decreasing_by exact Node.rank_lt_of_mem_children hc

theorem visitAll_passes {n : Node} (hn : ∀ t ∈ stmts, s.Here module (.stmt t)) (ho : Within stmts n)
    (hr : visitAll config enter stmts s = .ok u s') :
    ∃ t t', Steps config module s t ∧ visit config enter n t = .ok () t' ∧
      Steps config module t' s' := by
  obtain ⟨m, hm, ho⟩ := List.mem_flatMap.1 ho.mem_own
  obtain ⟨stmt, hs, rfl⟩ := mem_stmtNodes.1 hm
  rw [visitAll, forM_eq_forEach] at hr
  obtain ⟨t₁, t₂, before, hvisit, after⟩ := forEach_passes
    (fun x hx {_ _ _} ht => visit_steps he ((hn x hx).of_frame ht)) hs hr
  obtain ⟨t₃, t₄, before', hvisit', after'⟩ :=
    visit_passes he ((hn stmt hs).of_frame before.frame_eq) ho hvisit
  exact ⟨t₃, t₄, before.trans before', hvisit', after'.trans after⟩

end Visit

theorem enterBody_steps (config : Config) (module : Module) (bound : Nat) :
    Enters config module (enterBody config bound) := by
  induction bound with
  | zero =>
    intro d s s' u _ hr
    cases hr
  | succ bound ih =>
    intro d s s' u hf hr
    refine visitAll_steps ih (fun t ht => .stmt ?_) hr
    rw [Frame.body, hf]
    exact ht

/-- A state as a run over a module finds it. -/
def State.atModule (state : State) : State :=
  { state with frame := { state.frame with ns := .module, function := none } }

/-- **A run over a module that succeeds is made of steps.** -/
theorem analyzeModule_steps (hr : analyzeModule config module s = .ok u s') :
    Steps config module s.atModule s' := by
  obtain ⟨_, t, hm, hr⟩ := bind_ok.1 hr
  cases hm
  exact visitAll_steps (enterBody_steps config module _) (fun t ht => .stmt ht) hr

end SdkUsage.Inference
