/-
With the recursion guard every run over a module ends, whatever table it is
given.

Two things are shown. A run does not depend on how many bodies may be nested, as
long as it does not run out of that room: this is `Completes`. And with the
guard it never does, since no step breaks `State.On`. At each moment the
functions that are being analyzed are different functions of the module, so that
there are never more than the module has, and in the end the run stands where it
began.

Unlike success, this needs nothing of the table of scopes and of the room for
types. A run that asks for a name which the table does not have stops there, in
the middle of any number of bodies, and still comes back through all of them.
-/
import SdkUsage.Proofs.Inference.Place
import SdkUsage.Proofs.Inference.Stop

namespace SdkUsage

open SdkUsage.Tree SdkUsage.Inference

namespace Inference

variable {config : Config} {α β : Type}

/-! ## Room for bodies -/

/-- One run ends as another does, unless that one runs out of room. -/
def Completes (y x : Run α) : Prop :=
  ∀ s, y s = x s ∨ ∃ t, x s = .error .exhausted t

namespace Completes

theorem refl (x : Run α) : Completes x x := fun _ => .inl rfl

theorem bind {x y : Run β} {f g : β → Run α} (hx : Completes y x)
    (hf : ∀ b, Completes (g b) (f b)) : Completes (y >>= g) (x >>= f) := by
  intro s
  simp only [Bind.bind, EStateM.bind]
  rcases hx s with h | ⟨t, h⟩
  · rw [h]
    cases x s with
    | ok b t => exact hf b t
    | error e t => exact .inl rfl
  · rw [h]
    exact .inr ⟨t, rfl⟩

theorem forEach {xs : List α} {f g : (x : α) → x ∈ xs → Run Unit}
    (h : ∀ x hx, Completes (g x hx) (f x hx)) : Completes (forEach xs g) (forEach xs f) := by
  induction xs with
  | nil => exact refl _
  | cons x xs ih => exact bind (h x _) fun _ => ih fun y hy => h y _

theorem inside {x y : Run Unit} (h : Completes y x) (ns : Namespace) (d : Function) :
    Completes (inside ns d y) (inside ns d x) := by
  intro s
  rw [inside_eq, inside_eq]
  rcases h (s.entered ns d) with h | ⟨t, h⟩
  · exact .inl (by rw [h])
  · exact .inr ⟨_, by rw [h]⟩

end Completes

section Room

variable {small large : Function → Run Unit} (h : ∀ d, Completes (large d) (small d))

include h

theorem callFunction_completes (name : String) (args : List Expr) :
    Completes (callFunction config large name args) (callFunction config small name args) := by
  refine .bind (.refl _) fun d => .bind (.refl _) fun ns => .bind (.refl _) fun s => ?_
  split
  · exact .refl _
  · exact .bind (.refl _) fun _ => .bind (.inside (h d) ns d) fun _ => .refl _

theorem callType_completes (func : Expr) (args : List Expr) (keywords : List (Keyword Expr)) :
    Completes (callType config large func args keywords)
      (callType config small func args keywords) := by
  refine .bind (.refl _) fun s => ?_
  split
  · exact .refl _
  · exact .refl _
  · exact .refl _
  · split
    · exact callFunction_completes h _ args
    · exact .refl _
  · exact .refl _

theorem conclude_completes (node : Node) :
    Completes (conclude config large node) (conclude config small node) := by
  cases node with
  | stmt t => exact .refl _
  | expr e =>
    cases e with
    | call site func args keywords =>
      exact .bind (.refl _) fun _ =>
        .bind (callType_completes h func args keywords) fun _ => .refl _
    | _ => exact .refl _

theorem visit_completes (node : Node) :
    Completes (visit config large node) (visit config small node) := by
  rw [visit, visit]
  refine .bind (.forEach fun child hc => ?_) fun _ => conclude_completes h node
  exact visit_completes child
termination_by node.rank
decreasing_by exact Node.rank_lt_of_mem_children (Node.mem_children_of_mem_analyzed hc)

theorem visitAll_completes (stmts : List Stmt) :
    Completes (visitAll config large stmts) (visitAll config small stmts) := by
  unfold visitAll
  rw [forM_eq_forEach, forM_eq_forEach]
  exact .forEach fun t _ => visit_completes h (.stmt t)

end Room

/-- **More room gives the same answer**, unless there was too little. -/
theorem enterBody_completes {small large : Nat} (h : small ≤ large) (d : Function) :
    Completes (enterBody config large d) (enterBody config small d) := by
  induction small generalizing large d with
  | zero => exact fun s => .inr ⟨s, rfl⟩
  | succ small ih =>
    obtain ⟨large, rfl⟩ : ∃ n, large = n + 1 := ⟨large - 1, by omega⟩
    have inner := fun d => ih (show small ≤ large by omega) d
    exact visitAll_completes inner d.body

/-! ## Functions that are being analyzed -/

/-- The functions whose analysis has begun and not ended, innermost first, as
events tell it. -/
def openBodies : List Event → List Nat
  | [] => []
  | .entered d _ _ :: events => d :: openBodies events
  | .left _ :: events => (openBodies events).tail
  | _ :: events => openBodies events

/-- Whether an event begins or ends the analysis of a body. -/
def Event.isBracket : Event → Bool
  | .entered .. | .left _ => true
  | _ => false

theorem openBodies_cons {event : Event} (h : event.isBracket = false) (events : List Event) :
    openBodies (event :: events) = openBodies events := by
  cases event with
  | entered => cases h
  | left => cases h
  | _ => rfl

/-- A moment, given by the events up to it: the functions that are being
analyzed are different ones and of the module, and a body is entered with
these functions active. -/
structure Moment (module : Module) (events : List Event) : Prop where
  distinct : (openBodies events).Nodup
  functions : ∀ i ∈ openBodies events, ∃ d ∈ module.functions, d.site.index = i
  stack : ∀ d scope stack earlier, events = .entered d scope stack :: earlier →
    stack = openBodies events

theorem Moment.length_le {module : Module} {events : List Event} (h : Moment module events) :
    (openBodies events).length ≤ module.functions.length :=
  length_le_functions h.distinct h.functions

/-- All moments since a past are as they should be, and the functions that are
active now are those of a frame. -/
structure Course (module : Module) (past trace : List Event) (stack : List Nat) : Prop where
  moments : ∃ events, trace = events ++ past ∧ openBodies events = stack ∧
    ∀ moment, moment <:+ events → Moment module moment

namespace Course

variable {module : Module} {past trace : List Event} {stack : List Nat}

theorem start (past : List Event) : Course module past past [] := by
  refine ⟨[], rfl, rfl, fun moment h => ?_⟩
  rw [List.suffix_nil.1 h]
  exact ⟨List.nodup_nil, by simp [openBodies], by simp⟩

/-- One more event. -/
theorem cons (h : Course module past trace stack) {event : Event} {stack' : List Nat}
    (hs : ∀ events, openBodies events = stack → openBodies (event :: events) = stack')
    (distinct : stack'.Nodup) (functions : ∀ i ∈ stack', ∃ d ∈ module.functions, d.site.index = i)
    (entered : ∀ d scope stack, event = .entered d scope stack → stack = stack') :
    Course module past (event :: trace) stack' := by
  obtain ⟨events, rfl, hb, hm⟩ := h.moments
  have now := hs events hb
  refine ⟨event :: events, rfl, now, fun moment hmoment => ?_⟩
  rcases List.suffix_cons_iff.1 hmoment with rfl | hmoment
  · refine ⟨now ▸ distinct, now ▸ functions, ?_⟩
    rintro d scope stack earlier ⟨⟩
    rw [now]
    exact entered d scope stack rfl
  · exact hm moment hmoment

/-- The functions that are active are as they should be. -/
theorem now (h : Course module past trace stack) :
    stack.Nodup ∧ (∀ i ∈ stack, ∃ d ∈ module.functions, d.site.index = i) ∧
      stack.length ≤ module.functions.length := by
  obtain ⟨events, -, rfl, hm⟩ := h.moments
  have moment := hm events List.suffix_rfl
  exact ⟨moment.distinct, moment.functions, moment.length_le⟩

theorem since (h : Course module past trace stack) :
    ∃ events, trace = events ++ past ∧ ∀ moment, moment <:+ events →
      Moment module moment ∧ (openBodies moment).length ≤ module.functions.length := by
  obtain ⟨events, htrace, -, hm⟩ := h.moments
  exact ⟨events, htrace, fun moment hs => ⟨hm moment hs, (hm moment hs).length_le⟩⟩

theorem note (h : Course module past trace stack) {event : Event}
    (he : event.isBracket = false) : Course module past (event :: trace) stack := by
  refine h.cons (fun events hb => ?_) h.now.1 h.now.2.1 ?_
  · rw [openBodies_cons he, hb]
  · rintro d scope stack rfl
    cases he

theorem enter (h : Course module past trace stack) {d : Function} (hd : d ∈ module.functions)
    (hfree : d.site.index ∉ stack) (scope : Nat) :
    Course module past (.entered d.site.index scope (d.site.index :: stack) :: trace)
      (d.site.index :: stack) := by
  refine h.cons (fun events hb => ?_) (List.nodup_cons.2 ⟨hfree, h.now.1⟩) ?_ ?_
  · rw [openBodies, hb]
  · intro i hi
    rcases List.mem_cons.1 hi with rfl | hi
    · exact ⟨d, hd, rfl⟩
    · exact h.now.2.1 i hi
  · rintro _ _ _ ⟨⟩
    rfl

theorem leave {i : Nat} (h : Course module past trace (i :: stack)) (d : Nat) :
    Course module past (.left d :: trace) stack := by
  refine h.cons (fun events hb => ?_) (List.nodup_cons.1 h.now.1).2 ?_ ?_
  · rw [openBodies, hb, List.tail_cons]
  · exact fun j hj => h.now.2.1 j (List.mem_cons_of_mem i hj)
  · rintro _ _ _ ⟨⟩

end Course

/-! ## Guarded runs -/

theorem mem_functions_iff {module : Module} {d : Function} :
    d ∈ module.functions ↔ DefinedIn module d := by
  unfold Module.functions DefinedIn
  rw [List.mem_filterMap]
  constructor
  · rintro ⟨node, hn, hd⟩
    unfold Node.function? at hd
    split at hd
    · cases hd
      exact hn
    · cases hd
  · exact fun hd => ⟨_, hd, rfl⟩

/-- A run knows only functions of the module, and every moment since a past was as
it should be. -/
structure State.On (module : Module) (past : List Event) (s : State) : Prop where
  placed : s.Placed module
  course : Course module past s.trace s.frame.stack

variable {module : Module} {past : List Event}

/-- An action begins and ends no body. -/
theorem Course.act {s : State} (h : Course module past s.trace s.frame.stack) (action : Action) :
    Course module past (s.act action).trace s.frame.stack := by
  cases action with
  | call i callee result =>
    cases result with
    | none => exact h.note rfl
    | some type => exact (h.note rfl).note rfl
  | annotate | record | credit | bind | define | skip => exact h.note rfl

theorem on_kept (hguard : config.recursionGuard = true) :
    Kept config module (State.On module past) where
  act h hc _ := ⟨h.placed.act hc, h.course.act _⟩
  enter := by
    intro s name args d ns h hc hfree
    have hd := h.placed.of_calls hc
    rw [Free, hguard, Bool.true_and] at hfree
    exact ⟨h.placed.enter hd ns,
      h.course.enter (mem_functions_iff.2 hd) (Frame.not_mem_stack hfree) ns.scope⟩
  leave := by
    intro s s' d ns h h' hs
    have course := h'.course
    rw [hs] at course
    exact ⟨⟨h.placed.function, h.placed.active, h'.placed.definitions⟩, course.leave _⟩
  sign := by
    intro s scope name type h _
    refine ⟨⟨h.placed.function, h.placed.active, ?_⟩, h.course.act _⟩
    simp only [State.act_env, Action.definitions_bind]
    exact h.placed.definitions
  found h := ⟨⟨h.placed.function, h.placed.active, h.placed.definitions⟩, h.course.note rfl⟩
  again h := ⟨⟨by rintro _ ⟨⟩, h.placed.active, h.placed.definitions⟩, h.course⟩

/-- **No run is out of room,** if bodies may be nested as deeply as the module has
functions that are not yet active. -/
theorem Fails.inRoom (hguard : config.recursionGuard = true) {bound : Nat} {s s' : State}
    (hs : s.On module past) (room : module.functions.length ≤ bound + s.frame.active.length) :
    ¬ Fails config module (enterBody config bound) s .exhausted s' := by
  intro h
  have kept : Kept config module (State.On module past) := on_kept hguard
  have length : ∀ {s : State}, s.On module past → s.frame.active.length ≤ module.functions.length := by
    intro s hs
    simpa [Frame.stack] using hs.course.now.2.2
  obtain ⟨t, t', -, failed⟩ :=
    h.outside (fun hs hr => kept.steps hr hs) kept.enter length hs room
  cases failed with
  | fault _ fault =>
    cases fault with
    | unfit _ _ hne => exact absurd rfl hne
  | found _ _ _ hne => exact absurd rfl hne
  | body _ _ _ hb => cases hb
  | unsigned _ _ _ _ _ hne => exact absurd rfl hne

/-- A state between runs: no function is being analyzed, and those that are known
are of the module. -/
structure State.Idle (module : Module) (s : State) : Prop where
  active : s.frame.active = []
  definitions : ∀ key d, s.env.definitions.get? key = some d → DefinedIn module d

/-- Before the first run there is any table, and any room for types. -/
theorem State.idle_start (module : Module) (table : SymbolTable) (expressions statements : Nat) :
    (State.start table expressions statements).Idle module :=
  ⟨rfl, by rintro _ _ ⟨⟩⟩

theorem State.Idle.on {s : State} (h : s.Idle module) : s.atModule.On module s.trace := by
  have active : s.atModule.frame.active = [] := h.active
  refine ⟨⟨by rintro _ ⟨⟩, ?_, h.definitions⟩, ?_⟩
  · rw [active]
    exact nofun
  · rw [Frame.stack, active]
    exact .start s.trace

theorem functions_le_nestingBound (module : Module) :
    module.functions.length ≤ nestingBound module :=
  Nat.le_trans (Nat.le_succ _) (Nat.le_mul_of_pos_right _ (Nat.succ_pos _))

/-- A run with the guard is not out of room for bodies, if there is room for as many as
the module has functions. -/
theorem State.Idle.inRoom {s : State} (hs : s.Idle module)
    (hguard : config.recursionGuard = true) {bound : Nat}
    (hb : module.functions.length ≤ bound) (t : State) :
    visitAll config (enterBody config bound) module.body s.atModule ≠ .error .exhausted t := by
  intro h
  refine Fails.inRoom hguard hs.on ?_ ((module_leads bound).error h)
  exact Nat.le_trans hb (Nat.le_add_right _ _)

/-- The room that a run over a module is given is enough with the guard, and any other
that is enough gives the same. -/
theorem State.Idle.analyzeModule_eq {s : State} (hs : s.Idle module)
    (hguard : config.recursionGuard = true) {bound : Nat}
    (hb : module.functions.length ≤ bound) :
    visitAll config (enterBody config bound) module.body s.atModule
      = analyzeModule config module s := by
  -- Both are the run with the least room, which does not run out of it.
  have least {bound : Nat} (hb : module.functions.length ≤ bound) :
      visitAll config (enterBody config bound) module.body s.atModule
        = visitAll config (enterBody config module.functions.length) module.body s.atModule := by
    rcases visitAll_completes (enterBody_completes hb) module.body s.atModule with h | ⟨t, h⟩
    · exact h
    · exact absurd h (hs.inRoom hguard (Nat.le_refl _) t)
  rw [least hb]
  exact (least (functions_le_nestingBound module)).symm

end Inference

/-- **With the recursion guard every run ends,** over any module and with any
table and any room for types.

It does not run out of room for bodies, and more room would change nothing. At
every moment the functions that are being analyzed are different functions of
the module, hence not more than it has. In the end, after success as after
failure, the run stands where it stood before the first statement, and another
run may follow. -/
theorem guarded_run_ends {config : Config} (hguard : config.recursionGuard = true)
    (module : Module) {s : State} (hs : s.Idle module) :
    (∀ bound, module.functions.length ≤ bound →
      visitAll config (enterBody config bound) module.body s.atModule
        = analyzeModule config module s) ∧
    ∃ s', (analyzeModule config module s = .ok () s' ∨
        ∃ error, error ≠ .exhausted ∧ analyzeModule config module s = .error error s') ∧
      s'.frame = s.atModule.frame ∧ s'.Idle module ∧
      ∃ events, s'.trace = events ++ s.trace ∧ ∀ moment, moment <:+ events →
        Moment module moment ∧ (openBodies moment).length ≤ module.functions.length := by
  have run : analyzeModule config module s
      = visitAll config (enterBody config (nestingBound module)) module.body s.atModule := rfl
  constructor
  · exact fun bound hb => hs.analyzeModule_eq hguard hb
  · obtain ⟨after, frame⟩ := (on_kept hguard).ended hs.on (nestingBound module)
    rw [← run] at after frame
    refine ⟨_, ?_, frame, ⟨?_, after.placed.definitions⟩, after.course.since⟩
    · cases hr : analyzeModule config module s with
      | ok u s' => exact .inl rfl
      | error e s' =>
        refine .inr ⟨e, ?_, rfl⟩
        rintro rfl
        exact hs.inRoom hguard (functions_le_nestingBound module) s' hr
    · rw [frame]
      exact hs.active

/-- Two functions that call each other. -/
def pingPong : Source where
  file := "main.py"
  text := "def ping(n):\n    return pong(n)\ndef pong(n):\n    return ping(n)\nping(1)\n"

/-- Another program, in which the second function calls nothing. -/
def pingOnly : Source where
  file := "main.py"
  text := "def ping(n):\n    return pong(n)\ndef pong(n):\n    return n\nping(1)\n"

/-- The trace of a run that fails. -/
def failedTrace : EStateM.Result InferenceError State Unit → List Event
  | .ok .. => []
  | .error _ s => s.trace

/-- With the table of the other program, the run fails while both functions are
being analyzed, and comes back out of them. -/
theorem pingPong_ends :
    ∃ module other error s', parse pingPong = .ok module ∧ parse pingOnly = .ok other ∧
      analyzeModule {} module (.start (.build other) module.expressions module.statements)
        = .error error s' ∧
      (∃ moment ∈ s'.trace.tails, openBodies moment = [3, 1]) ∧
      error ≠ .exhausted ∧ s'.frame.ns = .module ∧ s'.frame.function = none ∧
      s'.frame.active = [] := by
  have fails : ((parse pingPong).toOption.any fun module =>
      (parse pingOnly).toOption.any fun other =>
        (failedTrace (analyzeModule {} module
          (.start (.build other) module.expressions module.statements))).tails.any
            fun moment => openBodies moment = [3, 1]) = true := by
    decide +kernel
  cases hp : parse pingPong with
  | error e =>
    rw [hp] at fails
    cases fails
  | ok module =>
    cases ho : parse pingOnly with
    | error e =>
      rw [hp, ho] at fails
      cases fails
    | ok other =>
      simp only [hp, ho, Except.toOption, Option.any_some] at fails
      have idle := State.idle_start module (.build other) module.expressions module.statements
      obtain ⟨-, s', ok | ⟨error, inRoom, failed⟩, frame, -⟩ :=
        @guarded_run_ends {} rfl module _ idle
      · rw [ok] at fails
        cases fails
      · rw [failed] at fails
        obtain ⟨moment, hm, ho⟩ := List.any_eq_true.1 fails
        exact ⟨module, other, error, s', rfl, rfl, failed, ⟨moment, hm, of_decide_eq_true ho⟩,
          inRoom, congrArg Frame.ns frame, congrArg Frame.function frame,
          congrArg Frame.active frame⟩

end SdkUsage
