/-
What a call leaves alone. While a function is analyzed, the run writes to the
scopes of that function and of functions it calls in turn. With the recursion
guard none of these was being analyzed before, and different functions have
different scopes. So what is known in the module and in all functions that are
being analyzed is as before, apart from the one name that is called.
-/
import SdkUsage.Proofs.Inference.Place
import SdkUsage.Proofs.Inference.Reach
import SdkUsage.Proofs.Scope.Distinct

namespace SdkUsage

open SdkUsage.Tree

variable {s s' : State} {id : Nat} {d : Function}

/-- Two environments know the same about the names of a scope. -/
def Environment.SameAt (env env' : Environment) (id : Nat) : Prop :=
  ∀ name, env'.types.get? (id, name) = env.types.get? (id, name) ∧
    env'.definitions.get? (id, name) = env.definitions.get? (id, name)

/-- A function is entered in the scope it is marked with. -/
theorem Environment.marked_of_namespace {module : Module} {env : Environment} {ns inner : Namespace}
    (ht : env.table = .build module) (h : env.definitionNamespace ns d = .ok inner) :
    (SymbolTable.build module).definitionScope? d.site.index = some inner.scope := by
  obtain ⟨id, scope, marked, found, rfl⟩ := Environment.definitionNamespace_ok.1 h
  rw [ht] at marked found
  rw [marked, (SymbolTable.isTree_build module).numbered found]

namespace Inference

/-! ## Scopes that are written to -/

/-- The scope in which an action changes what is known. -/
def Action.scope? : Action → Option Nat
  | bind scope .. | define scope .. => some scope
  | _ => none

theorem Action.sameAt_onEnv (action : Action) (h : action.scope? ≠ some id) (env : Environment) :
    env.SameAt (action.onEnv env) id := by
  intro name
  have other : ∀ {scope : Nat} {key : String}, some scope ≠ some id →
      (id, name) ≠ (scope, key) := fun hne he => hne (congrArg (some ·.1) he.symm)
  cases action with
  | bind scope key type =>
    rw [Action.get?_bind, Action.definitions_bind]
    exact ⟨if_neg (other h), rfl⟩
  | define scope key d =>
    rw [Action.get?_define]
    exact ⟨rfl, if_neg (other h)⟩
  | annotate | record | credit | call | skip => exact ⟨rfl, rfl⟩

variable {config : Config} {module : Module}

/-- A run writes to the scope it stands in, or passes arguments to a function
that may be entered. -/
theorem Cause.scope {s : State} {action : Action} {id : Nat} (h : Cause config module s action)
    (hw : action.scope? = some id) :
    id = s.frame.ns.scope ∨ ∃ name args d ns, s.Calls module name args d ns ∧
      Free config s d ∧ id = ns.scope := by
  cases h with
  | assigned | importModule | importFactory | defined =>
    cases hw
    exact .inl rfl
  | argument hcalls hfree =>
    cases hw
    exact .inr ⟨_, _, _, _, hcalls, hfree, rfl⟩
  | name | member | called | literal | target | returned | credited | skipped => cases hw

/-! ## Scopes that are in use -/

/-- A scope is the module's or that of a function that is being analyzed. -/
def Frame.Holds (module : Module) (frame : Frame) (id : Nat) : Prop :=
  id = SymbolTable.root ∨
    ∃ d ∈ frame.active, (SymbolTable.build module).definitionScope? d.site.index = some id

/-- The functions that are being analyzed are different ones, and the run stands
in the scope of the innermost or, if there is none, of the module. -/
structure State.Standing (module : Module) (s : State) : Prop where
  table : s.env.table = .build module
  distinct : s.frame.stack.Nodup
  scope : (s.frame.active = [] ∧ s.frame.ns.scope = SymbolTable.root) ∨
    ∃ d outer, s.frame.active = d :: outer ∧
      (SymbolTable.build module).definitionScope? d.site.index = some s.frame.ns.scope

/-- A function that may be entered has a number of its own. -/
theorem Free.not_mem (h : Free config s d) (hguard : config.recursionGuard = true) :
    d.site.index ∉ s.frame.stack := by
  rw [Free, hguard, Bool.true_and] at h
  exact Frame.not_mem_stack h

/-- A function that may be entered has a scope that is not in use. -/
theorem Free.not_holds (h : Free config s d) (hguard : config.recursionGuard = true)
    (hd : (SymbolTable.build module).definitionScope? d.site.index = some id) :
    ¬ s.frame.Holds module id := by
  rintro (rfl | ⟨e, he, hm⟩)
  · exact SymbolTable.definitionScope?_ne_root hd rfl
  · refine h.not_mem hguard (List.mem_map.2 ⟨e, he, ?_⟩)
    exact SymbolTable.definitionScope?_injective hm hd

namespace State.Standing

variable {s : State}

theorem holds (h : s.Standing module) : s.frame.Holds module s.frame.ns.scope := by
  rcases h.scope with ⟨-, hr⟩ | ⟨d, outer, ha, hd⟩
  · exact .inl hr
  · exact .inr ⟨d, ha ▸ List.mem_cons_self, hd⟩

theorem start (module : Module) : (Analysis.initial module).Standing module :=
  ⟨rfl, List.nodup_nil, .inl ⟨rfl, rfl⟩⟩

theorem act (h : s.Standing module) (action : Action) : (s.act action).Standing module :=
  ⟨(action.onEnv_table s.env).trans h.table, h.distinct, h.scope⟩

theorem enter (h : s.Standing module) (hguard : config.recursionGuard = true) {d : Function}
    {ns : Namespace} (hfree : Free config s d)
    (hns : s.env.definitionNamespace s.frame.ns d = .ok ns) : (s.entered ns d).Standing module where
  table := h.table
  distinct := List.nodup_cons.2 ⟨hfree.not_mem hguard, h.distinct⟩
  scope := .inr ⟨d, s.frame.active, rfl, Environment.marked_of_namespace h.table hns⟩

theorem resume (h : s.Standing module) (h' : s'.Standing module) (name : String) (d : Function) :
    (s'.resumed s.frame name d).Standing module :=
  ⟨((s'.signature s.frame name d).onEnv_table s'.env).trans h'.table, h.distinct, h.scope⟩

end State.Standing

theorem Steps.standing (hguard : config.recursionGuard = true) (h : Steps config module s s')
    (hs : s.Standing module) : s'.Standing module := by
  refine h.keeps ?_ ?_ ?_ hs
  · intro t action ht _ _
    exact ht.act action
  · intro t name args d ns ht hc hfree
    exact ht.enter hguard hfree hc.scope
  · intro t t' name args d ns ht _ ht' _ _
    exact ht.resume ht' name d

/-! ## Inside a call -/

/-- The run is in a function that is called from a frame, however deep. What is
known in the scopes that the frame holds is as it was before the call. -/
structure Beneath (module : Module) (caller : Frame) (since : Environment) (s : State) : Prop where
  standing : s.Standing module
  deeper : ∃ d inner, s.frame.active = d :: (inner ++ caller.active)
  same : ∀ {id}, caller.Holds module id → since.SameAt s.env id

namespace Beneath

variable {caller : Frame} {since : Environment} {s : State}

theorem holds_of_caller (h : Beneath module caller since s) (hid : caller.Holds module id) :
    s.frame.Holds module id := by
  obtain ⟨d, inner, ha⟩ := h.deeper
  refine hid.imp_right fun ⟨e, he, hm⟩ => ⟨e, ?_, hm⟩
  rw [ha]
  exact List.mem_cons_of_mem _ (List.mem_append_right _ he)

/-- The scope in which the run stands is none of those. -/
theorem not_holds (h : Beneath module caller since s) :
    ¬ caller.Holds module s.frame.ns.scope := by
  obtain ⟨d, inner, ha⟩ := h.deeper
  rcases h.standing.scope with ⟨hn, -⟩ | ⟨d', outer, ha', hd⟩
  · rw [hn] at ha
    cases ha
  · cases ha'.symm.trans ha
    rintro (hr | ⟨e, he, hm⟩)
    · exact SymbolTable.definitionScope?_ne_root hd hr
    · -- The innermost function would be among the outer ones.
      have distinct := h.standing.distinct
      rw [Frame.stack, ha, List.map_cons, List.nodup_cons] at distinct
      refine distinct.1 (List.mem_map.2 ⟨e, List.mem_append_right _ he, ?_⟩)
      exact SymbolTable.definitionScope?_injective hm hd

/-- Writes to a scope that the caller does not hold change nothing there. -/
theorem same_of_onEnv (h : Beneath module caller since s) {action : Action}
    (hw : ∀ {id}, action.scope? = some id → ¬ caller.Holds module id)
    (hid : caller.Holds module id) : since.SameAt (action.onEnv s.env) id := by
  have kept := action.sameAt_onEnv (fun hs => hw hs hid) s.env
  exact fun name => ⟨(kept name).1.trans (h.same hid name).1, (kept name).2.trans (h.same hid name).2⟩

theorem act (h : Beneath module caller since s) (hguard : config.recursionGuard = true)
    {action : Action} (hc : Cause config module s action) :
    Beneath module caller since (s.act action) := by
  refine ⟨h.standing.act action, h.deeper, fun hid => h.same_of_onEnv (fun hw => ?_) hid⟩
  rcases hc.scope hw with rfl | ⟨name, args, d, ns, hcalls, hfree, rfl⟩
  · exact h.not_holds
  · have marked := Environment.marked_of_namespace h.standing.table hcalls.scope
    exact fun held => hfree.not_holds hguard marked (h.holds_of_caller held)

theorem resume (h : Beneath module caller since s) (h' : Beneath module caller since s')
    (name : String) (d : Function) : Beneath module caller since (s'.resumed s.frame name d) := by
  refine ⟨h.standing.resume h'.standing name d, h.deeper, fun hid => h'.same_of_onEnv ?_ hid⟩
  intro id hw
  cases hw
  exact h.not_holds

end Beneath

/-- **A run inside a call keeps what the caller holds.** -/
theorem Steps.beneath (hguard : config.recursionGuard = true) {caller : Frame} {since : Environment}
    (h : Steps config module s s') (hs : Beneath module caller since s) :
    Beneath module caller since s' := by
  refine h.keeps ?_ ?_ ?_ hs
  · intro t action ht hc _
    exact ht.act hguard hc
  · intro t name args d ns ht hc hfree
    obtain ⟨e, inner, ha⟩ := ht.deeper
    refine ⟨ht.standing.enter hguard hfree hc.scope, ⟨d, e :: inner, ?_⟩, ht.same⟩
    show d :: t.frame.active = _
    rw [ha, List.cons_append]
  · intro t t' name args d ns ht _ ht' _ _
    exact ht.resume ht' name d

/-- Arguments go to names of the scope that is given. -/
theorem passArguments_sameAt {ns : Namespace} {args : List Expr} {params : List (Param Expr)}
    {u : Unit} (hr : passArguments ns args params s = .ok u s') :
    s'.env.table = s.env.table ∧ ∀ {id}, id ≠ ns.scope → s.env.SameAt s'.env id := by
  refine passArguments_chain (R := fun a b => b.env.table = a.env.table ∧
    ∀ {id}, id ≠ ns.scope → a.env.SameAt b.env id) ?_ ?_ ?_ hr
  · intro _
    exact ⟨rfl, fun _ _ => ⟨rfl, rfl⟩⟩
  · intro _ _ _ h h'
    refine ⟨h'.1.trans h.1, fun hne name => ?_⟩
    exact ⟨(h'.2 hne name).1.trans (h.2 hne name).1, (h'.2 hne name).2.trans (h.2 hne name).2⟩
  · intro t name type
    refine ⟨Action.onEnv_table .., fun hne => ?_⟩
    exact (Action.bind ns.scope name (some type)).sameAt_onEnv
      (fun he => hne (Option.some.inj he).symm) t.env

/-- A call by name is passed over, or it goes on beneath the frame it comes from
and then binds the name. -/
theorem callFunction_beneath (hguard : config.recursionGuard = true) (hs : s.Standing module)
    {room : Nat} {name : String} {args : List Expr} {result : Option Ty}
    (hr : callFunction config (enterBody config room) name args s = .ok result s') :
    s'.frame = s.frame ∧ (s'.env = s.env ∨ ∃ inner type, Beneath module s.frame s.env inner ∧
      s'.env = (Action.bind s.frame.ns.scope name type).onEnv inner.env) := by
  simp only [callFunction, bind_ok, ask_ok, get_ok] at hr
  obtain ⟨d, _, ⟨-, rfl⟩, ns, _, ⟨hns, rfl⟩, _, _, ⟨rfl, rfl⟩, hr⟩ := hr
  split at hr
  · simp only [bind_ok, note_ok, pure_ok] at hr
    obtain ⟨_, _, rfl, rfl, rfl⟩ := hr
    exact ⟨rfl, .inl rfl⟩
  · next hg =>
    simp only [bind_ok, inside_ok, get_ok, bindName_ok, pure_ok] at hr
    obtain ⟨_, s₁, hp, _, _, ⟨s₂, hb, rfl⟩, _, _, ⟨rfl, rfl⟩, _, _, ⟨-, rfl⟩, -, rfl⟩ := hr
    have free : Free config s d := Bool.eq_false_iff.2 hg
    have marked := Environment.marked_of_namespace hs.table hns
    have hf := passArguments_frame hp
    obtain ⟨ht, passed⟩ := passArguments_sameAt hp
    have entered : Beneath module s.frame s.env (s₁.entered ns d) := by
      unfold State.entered
      rw [hf]
      refine ⟨⟨ht.trans hs.table, ?_, .inr ⟨d, s.frame.active, rfl, marked⟩⟩, ⟨d, [], rfl⟩,
        fun hid => passed fun he => free.not_holds hguard marked (he ▸ hid)⟩
      exact List.nodup_cons.2 ⟨free.not_mem hguard, hs.distinct⟩
    have after := (enterBody_steps config module room rfl hb).beneath hguard entered
    refine ⟨hf, .inr ⟨s₂, s₂.types.stmts.get? d.site.index, after, ?_⟩⟩
    rw [← hf]
    rfl

end Inference

open Inference

/-- **A call leaves alone what is known where it comes from.** Wherever a run
comes, a call by name that succeeds there changes nothing that is known in the
scope the run stands in, in the module, or in a function that is being analyzed,
but for the type of the name that is called. And the run stands where it stood. -/
theorem call_keeps_callers {config : Config} (hguard : config.recursionGuard = true)
    {module : Module} {bound : Nat} {node : Node} {rest : List Node} {s : State}
    (h : Reaches config module bound node rest s) {room : Nat} {name : String} {args : List Expr}
    {result : Option Ty} {s' : State}
    (hr : callFunction config (enterBody config room) name args s = .ok result s') :
    s'.frame = s.frame ∧
    ∀ id, (id = s.frame.ns.scope ∨ id = SymbolTable.root ∨ ∃ d ∈ s.frame.active,
        (SymbolTable.build module).definitionScope? d.site.index = some id) →
      ∀ key, s'.env.definitions.get? (id, key) = s.env.definitions.get? (id, key) ∧
        ((id, key) ≠ (s.frame.ns.scope, name) →
          s'.env.types.get? (id, key) = s.env.types.get? (id, key)) := by
  have standing : s.Standing module :=
    (h.keeps (.start module) (fun hs hr => hr.standing hguard hs)
      (fun hs hc hfree => hs.enter hguard hfree hc.scope)).1
  obtain ⟨frame, same | ⟨inner, type, beneath, bound⟩⟩ := callFunction_beneath hguard standing hr
  · refine ⟨frame, fun id _ key => ?_⟩
    rw [same]
    exact ⟨rfl, fun _ => rfl⟩
  · refine ⟨frame, fun id hid key => ?_⟩
    have held : s.frame.Holds module id := by
      rcases hid with rfl | hid
      · exact standing.holds
      · exact hid
    obtain ⟨types, definitions⟩ := beneath.same held key
    rw [bound, Action.definitions_bind, Action.get?_bind]
    refine ⟨definitions, fun hne => ?_⟩
    rw [if_neg hne]
    exact types

/-- A function that is called with what a name stands for:
`def g(c): return c`. -/
def giveBack : Function :=
  ⟨⟨default, 0⟩, ⟨"g", default⟩, ⟨[⟨⟨"c", default⟩, none, none⟩], none, [], none⟩, none, [],
    [.returning ⟨default, 1⟩ (some (.name ⟨default, 0⟩ "c"))], false⟩

/-- The call `g(b)`. -/
def giveBackCall : Expr :=
  .call ⟨default, 5⟩ (.name ⟨default, 3⟩ "g") [.name ⟨default, 4⟩ "b"] []

/-- The assignment `b = 's3'`. -/
def serviceName : Stmt :=
  .assign ⟨default, 3⟩ [.name ⟨default, 1⟩ "b"] (.str ⟨default, 2⟩ "s3" .plain)

/-- A function that calls the first one: `def f(): b = 's3'; g(b)`. -/
def passOn : Function :=
  ⟨⟨default, 2⟩, ⟨"f", default⟩, ⟨[], none, [], none⟩, none, [],
    [serviceName, .expr ⟨default, 4⟩ giveBackCall], false⟩

/-- The call `f()`. -/
def passOnCall : Expr := .call ⟨default, 7⟩ (.name ⟨default, 6⟩ "f") [] []

/-- Both functions, and a call of the second. -/
def nestedCall : Module where
  body := [.functionDef giveBack, .functionDef passOn, .expr ⟨default, 5⟩ passOnCall]
  expressions := 8
  statements := 6

/-- The state a run ends in. -/
def Inference.final {α : Type} : EStateM.Result InferenceError State α → State
  | .ok _ s | .error _ s => s

/-- The answer of a run that succeeds. -/
def Inference.answer? {α : Type} : EStateM.Result InferenceError State α → Option α
  | .ok a _ => some a
  | .error .. => none

theorem Inference.ok_final {α : Type} {a : α} {result : EStateM.Result InferenceError State α}
    (h : answer? result = some a) : result = .ok a (final result) := by
  cases result with
  | ok b s =>
    cases h
    rfl
  | error => cases h

/-- The state before the call `f()`. -/
def beforeCall : State :=
  final (visitAll {} (enterBody {} 48) [.functionDef giveBack, .functionDef passOn]
    (Analysis.initial nestedCall))

/-- The state in which the call `f()` is decided. -/
def atCall : State := final (visit {} (enterBody {} 48) (.expr (.name ⟨default, 6⟩ "f")) beforeCall)

/-- The state before the call `g(b)`. -/
def beforeInnerCall : State :=
  final (visitAll {} (enterBody {} 47) [serviceName] (atCall.entered ⟨2, 0⟩ passOn))

/-- The state in which the call `g(b)` is decided. -/
def atInnerCall : State :=
  final (visit {} (enterBody {} 47) (.expr (.name ⟨default, 4⟩ "b"))
    (final (visit {} (enterBody {} 47) (.expr (.name ⟨default, 3⟩ "g")) beforeInnerCall)))

theorem reaches_atInnerCall : Reaches {} nestedCall 47 (.expr giveBackCall) [] atInnerCall := by
  have defined : visitAll {} (enterBody {} 48) [.functionDef giveBack, .functionDef passOn]
      (Analysis.initial nestedCall) = .ok () beforeCall := ok_final (by decide +kernel)
  have named : visit {} (enterBody {} 48) (.expr (.name ⟨default, 6⟩ "f")) beforeCall
      = .ok () atCall := ok_final (by decide +kernel)
  have room : nestingBound nestedCall = 48 := by decide +kernel
  rw [← room] at defined
  have before : Reaches {} nestedCall _ (.stmt (.expr ⟨default, 5⟩ passOnCall)) _ beforeCall :=
    .top rfl defined
  rw [room] at before
  have decided : Reaches {} nestedCall 48 (.expr passOnCall) [] atCall := before.part.next named
  have undecided : Undecided (atCall.types.ofExpr? (.name ⟨default, 6⟩ "f")) := by
    have type : atCall.types.ofExpr? (.name ⟨default, 6⟩ "f") = none := by decide +kernel
    rw [type]
    trivial
  -- Functions cannot be compared by deciding.
  have definition : atCall.env.definition atCall.frame.ns "f" = .ok passOn := by
    with_unfolding_all rfl
  have ns : atCall.env.definitionNamespace atCall.frame.ns passOn = .ok ⟨2, 0⟩ := by
    decide +kernel
  have free : Free {} atCall passOn := by
    unfold Free
    decide +kernel
  have assigned : visitAll {} (enterBody {} 47) [serviceName] (atCall.entered ⟨2, 0⟩ passOn)
      = .ok () beforeInnerCall := ok_final (by decide +kernel)
  have inner := (Reaches.body decided undecided definition ns free rfl rfl assigned).part
  exact (inner.next (ok_final (by decide +kernel))).next (ok_final (by decide +kernel))

/-- While `f` is analyzed, `g(b)` is called there. The call gives back what `b`
stands for, `g` takes a type, and `b` still stands for the same. -/
theorem nestedCall_keeps :
    Reaches {} nestedCall 47 (.expr giveBackCall) [] atInnerCall ∧
    atInnerCall.frame.stack = [2] ∧ atInnerCall.frame.ns.scope = 2 ∧
    ∃ s', callFunction {} (enterBody {} 47) "g" [.name ⟨default, 4⟩ "b"] atInnerCall
        = .ok (some (.stringLiteral "s3")) s' ∧
      s'.frame = atInnerCall.frame ∧
      s'.env.types.get? (2, "g") = some (.function (.stringLiteral "s3")) ∧
      atInnerCall.env.types.get? (2, "b") = some (.stringLiteral "s3") ∧
      s'.env.types.get? (2, "b") = some (.stringLiteral "s3") := by
  have answer : answer? (callFunction {} (enterBody {} 47) "g" [.name ⟨default, 4⟩ "b"] atInnerCall)
      = some (some (.stringLiteral "s3")) := by decide +kernel
  have known : atInnerCall.env.types.get? (2, "b") = some (.stringLiteral "s3") := by
    decide +kernel
  have scope : atInnerCall.frame.ns.scope = 2 := by decide +kernel
  obtain ⟨frame, keeps⟩ := call_keeps_callers rfl reaches_atInnerCall (ok_final answer)
  have kept := (keeps 2 (.inl scope.symm) "b").2 (by decide +kernel)
  exact ⟨reaches_atInnerCall, by decide +kernel, scope, _, ok_final answer, frame,
    by decide +kernel, known, kept.trans known⟩

end SdkUsage
