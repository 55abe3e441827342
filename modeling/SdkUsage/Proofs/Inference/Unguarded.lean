/-
The recursion guard changes nothing where it is not needed. A run that passes over
no call is the same run without the guard, to its end and with all it leaves behind.

The two runs are compared step by step (`Spares`). They differ only where a function
is called that is being analyzed, and there the guarded one leaves an event. A run
only adds events, so that a trace without one that tells of a call passed over tells
that neither the run nor any part of it came to such a place.

That the run without the guard ends comes from the one with it, which is never out of
room for bodies.
-/
import SdkUsage.Proofs.Inference.Guard

namespace SdkUsage

open SdkUsage.Tree SdkUsage.Inference

/-- A configuration with the recursion guard on. -/
def Config.guarded (config : Config) : Config := { config with recursionGuard := true }

/-- A configuration with the recursion guard off. -/
def Config.unguarded (config : Config) : Config := { config with recursionGuard := false }

namespace Inference

variable {config : Config} {α β : Type}

/-! ## Runs side by side -/

/-- What a run from a state has added to the trace. -/
def Adds (s : State) (events : List Event) : EStateM.Result InferenceError State α → Prop
  | .ok _ t | .error _ t => t.trace = events ++ s.trace

/-- No event tells of a call that was passed over. -/
def Unskipped (events : List Event) : Prop := ∀ event ∈ events, ∀ d, event ≠ .skipped d

theorem unskipped_append {later earlier : List Event} :
    Unskipped (later ++ earlier) ↔ Unskipped later ∧ Unskipped earlier := List.forall_mem_append

/-- One run ends as another does, unless that one passes over a call. -/
def Spares (y x : Run α) : Prop :=
  ∀ s, ∃ events, Adds s events (x s) ∧ (Unskipped events → y s = x s)

namespace Spares

/-- A run is compared with itself, if it only adds to the trace. -/
theorem self {x : Run α} (h : ∀ s, ∃ events, Adds s events (x s)) : Spares x x :=
  fun s => (h s).imp fun _ added => ⟨added, fun _ => rfl⟩

theorem pure (a : α) : Spares (pure a : Run α) (pure a) := self fun _ => ⟨[], rfl⟩

theorem get : Spares (get : Run State) get := self fun _ => ⟨[], rfl⟩

theorem note (event : Event) : Spares (note event) (note event) := self fun _ => ⟨[event], rfl⟩

theorem ask (question : Environment → Namespace → Except ScopeError α) :
    Spares (ask question) (ask question) := by
  refine self fun s => ⟨[], ?_⟩
  rw [ask_eq]
  cases question s.env s.frame.ns <;> rfl

theorem change (edit : Environment → Except ScopeError Environment) :
    Spares (change edit) (change edit) := by
  refine self fun s => ⟨[], ?_⟩
  rw [change_eq]
  cases edit s.env <;> rfl

theorem changeTypes (edit : Annotations → Except OutOfRange Annotations) :
    Spares (changeTypes edit) (changeTypes edit) := by
  refine self fun s => ⟨[], ?_⟩
  rw [changeTypes_eq]
  cases edit s.types <;> rfl

theorem bind {x y : Run β} {f g : β → Run α} (hx : Spares y x)
    (hf : ∀ b, Spares (g b) (f b)) : Spares (y >>= g) (x >>= f) := by
  intro s
  obtain ⟨earlier, added, same⟩ := hx s
  simp only [Bind.bind, EStateM.bind]
  cases hr : x s with
  | error e t =>
    rw [hr] at added same
    exact ⟨earlier, added, fun quiet => by rw [same quiet]⟩
  | ok b t =>
    rw [hr] at added same
    obtain ⟨later, added', same'⟩ := hf b t
    refine ⟨later ++ earlier, ?_, fun quiet => ?_⟩
    · have whole : later ++ t.trace = (later ++ earlier) ++ s.trace := by
        rw [show t.trace = earlier ++ s.trace from added, List.append_assoc]
      change Adds s _ (f b t)
      cases hl : f b t with
      | ok | error =>
        rw [hl] at added'
        exact Eq.trans added' whole
    · obtain ⟨quietLater, quietEarlier⟩ := unskipped_append.1 quiet
      rw [same quietEarlier]
      exact same' quietLater

theorem forEach {xs : List α} {f g : (x : α) → x ∈ xs → Run Unit}
    (h : ∀ x hx, Spares (g x hx) (f x hx)) : Spares (forEach xs g) (forEach xs f) := by
  induction xs with
  | nil => exact pure ()
  | cons x xs ih => exact bind (h x _) fun _ => ih fun y hy => h y _

theorem forM {xs : List α} {f g : α → Run Unit} (h : ∀ x, Spares (g x) (f x)) :
    Spares (xs.forM g) (xs.forM f) := by
  rw [forM_eq_forEach, forM_eq_forEach]
  exact forEach fun x _ => h x

/-- The brackets around a body are events of their own. -/
theorem inside {x y : Run Unit} (h : Spares y x) (ns : Namespace) (d : Function) :
    Spares (inside ns d y) (inside ns d x) := by
  intro s
  rw [inside_eq, inside_eq]
  obtain ⟨events, added, same⟩ := h (s.entered ns d)
  obtain ⟨event, first⟩ : ∃ event, (s.entered ns d).trace = event :: s.trace := ⟨_, rfl⟩
  refine ⟨.left d.site.index :: (events ++ [event]), ?_, fun quiet => ?_⟩
  · cases hr : x (s.entered ns d) with
    | ok u t | error e t =>
      rw [hr] at added
      have inner : t.trace = events ++ (s.entered ns d).trace := added
      change .left d.site.index :: t.trace = _
      rw [inner, first]
      simp
  · rw [same fun event he => quiet event (by simp [he])]

end Spares

/-! ## Steps that the guard does not reach -/

theorem bindIn_spares {ns : Namespace} {name : String} {type : Option Ty} :
    Spares (bindIn ns name type) (bindIn ns name type) :=
  .bind (.change _) fun _ => .note _

theorem bindName_spares {name : String} {type : Option Ty} :
    Spares (bindName name type) (bindName name type) :=
  .bind (.bind .get fun _ => .pure _) fun _ => bindIn_spares

theorem annotate_spares {expr : Nat} {type : Option Ty} :
    Spares (annotate expr type) (annotate expr type) :=
  .bind (.changeTypes _) fun _ => .note _

theorem annotateSome_spares {expr : Nat} {type : Option Ty} :
    Spares (annotateSome expr type) (annotateSome expr type) := by
  cases type with
  | none => exact .pure ()
  | some type => exact annotate_spares

theorem exprType_spares {expr : Expr} : Spares (exprType expr) (exprType expr) :=
  .bind .get fun _ => .pure _

theorem passArguments_spares {ns : Namespace} {args : List Expr} {params : List (Param Expr)} :
    Spares (passArguments ns args params) (passArguments ns args params) := by
  refine .forM fun pair => .bind exprType_spares fun type => ?_
  cases type with
  | none => exact .pure ()
  | some type => exact bindIn_spares

theorem assign_spares {targets : List Expr} {value : Expr} :
    Spares (assign targets value) (assign targets value) := by
  refine .bind (.bind exprType_spares fun type => ?_) fun type => .forM fun target => ?_
  · split
    · exact .bind annotate_spares fun _ => .pure _
    · exact .pure _
  · unfold assignTarget
    split
    · exact .bind bindName_spares fun _ => annotate_spares
    · exact .pure ()

theorem bindImports_spares {member : String} {type : Ty} {names : List Alias} :
    Spares (bindImports member type names) (bindImports member type names) :=
  .forM fun _ => bindName_spares

theorem recordReturn_spares {stmt : Nat} {value : Expr} :
    Spares (recordReturn stmt value) (recordReturn stmt value) := by
  refine .bind exprType_spares fun type => ?_
  cases type with
  | none => exact .pure ()
  | some type =>
    refine .bind (.changeTypes _) fun _ => .bind (.note _) fun _ => .bind .get fun s => ?_
    cases s.frame.function with
    | none => exact .pure ()
    | some d => exact .bind (.changeTypes _) fun _ => .note _

theorem define_spares {d : Function} : Spares (define d) (define d) :=
  .bind (.bind .get fun _ => .pure _) fun _ => .bind (.change _) fun _ => .note _

theorem concludeStmt_spares (t : Stmt) :
    Spares (concludeStmt config t) (concludeStmt config t) := by
  unfold concludeStmt
  split
  · exact assign_spares
  · exact assign_spares
  · exact bindImports_spares
  · split
    · exact bindImports_spares
    · exact .pure ()
  · exact define_spares
  · exact recordReturn_spares
  · exact .pure ()

/-! ## Calls -/

section Calls

variable {free guarded : Function → Run Unit} (h : ∀ d, Spares (free d) (guarded d))

include h

/-- Without the guard a body is analyzed where the guard would pass over the call,
and there the guard leaves an event. -/
theorem callFunction_spares (name : String) (args : List Expr) :
    Spares (callFunction config.unguarded free name args)
      (callFunction config.guarded guarded name args) := by
  refine .bind (.ask _) fun d => .bind (.ask _) fun ns => .bind .get fun s => ?_
  let around (body : Run Unit) : Run (Option Ty) := do
    passArguments ns args d.params.args
    inside ns d body
    let type := (← get).types.stmts.get? d.site.index
    bindName name type
    return returnType type
  have body : Spares (around (free d)) (around (guarded d)) :=
    .bind passArguments_spares fun _ => .bind (.inside (h d) ns d) fun _ =>
      .bind .get fun _ => .bind bindName_spares fun _ => .pure _
  simp only [Config.unguarded, Config.guarded, Bool.false_and, Bool.true_and]
  cases s.frame.isActive d with
  | false => exact body
  | true =>
    intro s
    exact ⟨[.skipped d.site.index], rfl, fun quiet => absurd rfl (quiet _ (by simp) d.site.index)⟩

theorem callType_spares (func : Expr) (args : List Expr) (keywords : List (Keyword Expr)) :
    Spares (callType config.unguarded free func args keywords)
      (callType config.guarded guarded func args keywords) := by
  refine .bind .get fun s => ?_
  split
  · exact .pure _
  · exact .pure _
  · exact .pure _
  · split
    · exact callFunction_spares h _ args
    · exact .pure _
  · exact .pure _

theorem conclude_spares (node : Node) :
    Spares (conclude config.unguarded free node) (conclude config.guarded guarded node) := by
  cases node with
  | stmt t => exact @concludeStmt_spares config.guarded t
  | expr e =>
    cases e with
    | name site name => exact .bind (.ask _) fun _ => annotate_spares
    | member site value attr => exact .bind exprType_spares fun _ => annotateSome_spares
    | call site func args keywords =>
      exact .bind exprType_spares fun _ => .bind (callType_spares h func args keywords) fun _ =>
        .bind (.note _) fun _ => annotateSome_spares
    | _ => exact .pure ()

theorem visit_spares (node : Node) :
    Spares (visit config.unguarded free node) (visit config.guarded guarded node) := by
  rw [visit, visit]
  refine .bind (.forEach fun child hc => ?_) fun _ => conclude_spares h node
  exact visit_spares child
termination_by node.rank
decreasing_by exact Node.rank_lt_of_mem_children (Node.mem_children_of_mem_analyzed hc)

theorem visitAll_spares (stmts : List Stmt) :
    Spares (visitAll config.unguarded free stmts) (visitAll config.guarded guarded stmts) :=
  .forM fun t => visit_spares h (.stmt t)

end Calls

/-- **With the same room for bodies the guard is seen only where it passes over a call.** -/
theorem enterBody_spares (bound : Nat) (d : Function) :
    Spares (enterBody config.unguarded bound d) (enterBody config.guarded bound d) := by
  induction bound generalizing d with
  | zero => exact .self fun _ => ⟨[], rfl⟩
  | succ bound ih => exact visitAll_spares ih d.body

/-- What a run adds is what its last state has more than its first. -/
theorem adds_iff {s : State} {events : List Event} {result : EStateM.Result InferenceError State Unit} :
    Adds s events result ↔ (ended result).trace = events ++ s.trace := by
  cases result <;> exact Iff.rfl

end Inference

/-- **The guard is transparent when it is not needed.** If the run over a module with the
recursion guard passes over no call, then the run without it ends too, and in the same
way: with the same outcome, the same types of nodes and names, and the same trace. It
does not depend on the room for bodies either, as long as there is room for as many as the
module has functions. -/
theorem guard_transparent (config : Config) (module : Module) {s : State} (hs : s.Idle module)
    {events : List Event}
    (since : (ended (analyzeModule config.guarded module s)).trace = events ++ s.trace)
    (quiet : Unskipped events) :
    analyzeModule config.unguarded module s = analyzeModule config.guarded module s ∧
    (∀ t, analyzeModule config.unguarded module s ≠ .error .exhausted t) ∧
    ∀ bound, module.functions.length ≤ bound →
      visitAll config.unguarded (enterBody config.unguarded bound) module.body s.atModule
        = analyzeModule config.unguarded module s := by
  have guarded {bound : Nat} (hb : module.functions.length ≤ bound) :
      visitAll config.guarded (enterBody config.guarded bound) module.body s.atModule
        = analyzeModule config.guarded module s := hs.analyzeModule_eq rfl hb
  have same {bound : Nat} (hb : module.functions.length ≤ bound) :
      visitAll config.unguarded (enterBody config.unguarded bound) module.body s.atModule
        = analyzeModule config.guarded module s := by
    obtain ⟨added, ha, equal⟩ := visitAll_spares (enterBody_spares bound) module.body s.atModule
    rw [guarded hb] at ha equal
    have whole : added ++ s.trace = events ++ s.trace := (adds_iff.1 ha).symm.trans since
    rw [List.append_cancel_right whole] at equal
    exact equal quiet
  have enough := functions_le_nestingBound module
  have run : analyzeModule config.unguarded module s = analyzeModule config.guarded module s :=
    same enough
  refine ⟨run, fun t h => ?_, fun bound hb => (same hb).trans run.symm⟩
  exact hs.inRoom rfl enough t ((guarded enough).trans (run.symm.trans h))

/-- Functions that call one another, one of them twice, and none of them itself. -/
def chainedCalls : Source where
  file := "main.py"
  text := "import boto3\ndef f(c):\n    return c\ndef g(n):\n    f(f)\n    return f(boto3.client(n))\n"
    ++ "k = 's3'\ng(k).m()\n"

/-- The functions that are called, newest first, with whether their bodies are analyzed. -/
def callsMade (events : List Event) : List (Nat × Bool) :=
  events.filterMap fun event =>
    match event with
    | .entered d _ _ => some (d, true)
    | .skipped d => some (d, false)
    | _ => none

theorem quiet_of_callsMade {events : List Event} (h : ∀ call ∈ callsMade events, call.2 = true) :
    Unskipped events := by
  rintro event he d rfl
  cases h (d, false) (List.mem_filterMap.2 ⟨_, he, rfl⟩)

theorem chainedCalls_transparent : ∃ module s, parse chainedCalls = .ok module ∧
    s = Analysis.initial module ∧
    callsMade (ended (analyzeModule (Config.guarded {}) module s)).trace
      = [(2, true), (2, true), (5, true)] ∧
    analyzeModule (Config.unguarded {}) module s = analyzeModule (Config.guarded {}) module s := by
  have calls : (parse chainedCalls).toOption.map (fun module =>
      callsMade (ended (analyzeModule (Config.guarded {}) module (Analysis.initial module))).trace)
      = some [(2, true), (2, true), (5, true)] := by
    decide +kernel
  cases hp : parse chainedCalls with
  | error e =>
    rw [hp] at calls
    cases calls
  | ok module =>
    rw [hp] at calls
    have made := Option.some.inj calls
    have quiet : Unskipped (ended (analyzeModule (Config.guarded {}) module
        (Analysis.initial module))).trace := by
      refine quiet_of_callsMade ?_
      simp only [made]
      decide
    exact ⟨module, _, rfl, rfl, made, (guard_transparent {} module
      (State.idle_start module ..) (List.append_nil _).symm quiet).1⟩

end SdkUsage
