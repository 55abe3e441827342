/-
Which function a `return` is credited to. The walk over a function's body
concludes one node after another, and between them the bodies of other functions
may be walked. Each `return` whose value has a type gives it to the function that
is being analyzed at that moment; so in the end a function has the type of the
last one that stands in its own body.

`Concludes` lists the moments of a walk, with the state each node is concluded in.
-/
import SdkUsage.Proofs.Inference.Redefinition

namespace SdkUsage

open SdkUsage.Tree

namespace Inference

variable {config : Config} {module : Module} {s s' : State} {u : Unit}

/-! ## Functions that wait for others -/

/-- The statement to which an action gives a type. -/
def Action.stmt? : Action → Option Nat
  | record stmt _ | credit stmt _ => some stmt
  | _ => none

theorem Action.get?_onTypes_stmts (action : Action) {i : Nat} (h : action.stmt? ≠ some i)
    (types : Annotations) : (action.onTypes types).stmts.get? i = types.stmts.get? i := by
  cases action with
  | record j type | credit j type =>
    exact IndexTable.get?_put_other _ fun hi => h (congrArg some hi.symm)
  | call j callee result => cases result <;> rfl
  | annotate | bind | define | skip => rfl

/-- The run is in a function that was called while others were being analyzed,
however deep. What is known of those is as it was. -/
structure Spared (module : Module) (outer : List Function) (since : Annotations) (s : State) :
    Prop where
  standing : s.Standing module
  framed : s.Framed module
  deeper : ∃ d inner, s.frame.function = some d ∧ s.frame.active = d :: (inner ++ outer)
  same : ∀ f ∈ outer, s.types.stmts.get? f.site.index = since.stmts.get? f.site.index

namespace Spared

variable {outer : List Function} {since : Annotations}

theorem act (hm : module.Numbered) (h : Spared module outer since s) {action : Action}
    (hc : Cause config module s action) (hfit : action.Fits s) :
    Spared module outer since (s.act action) := by
  obtain ⟨d, inner, hd, ha⟩ := h.deeper
  have framed := (Steps.one hc hfit).framed hm h.framed
  refine ⟨h.standing.act action, framed, h.deeper, fun f hf => ?_⟩
  have waits : f ∈ inner ++ outer := List.mem_append_right _ hf
  refine (action.get?_onTypes_stmts (fun hw => ?_) s.types).trans (h.same f hf)
  cases hc with
  | returned hn _ =>
    have defined : DefinedIn module f := h.framed.placed.active f (ha ▸ List.mem_cons_of_mem _ waits)
    exact returning_ne hm h.framed.placed hn defined (Option.some.inj hw)
  | credited _ _ hfun =>
    -- The innermost function gets the type, and it is none of the outer ones.
    cases hfun.symm.trans hd
    have distinct := h.standing.distinct
    rw [Frame.stack, ha, List.map_cons, List.nodup_cons] at distinct
    exact distinct.1 (List.mem_map.2 ⟨f, waits, (Option.some.inj hw).symm⟩)
  | name | member | called | literal | assigned | target | importModule | importFactory | defined
  | skipped | argument => cases hw

end Spared

/-- **A run inside a call keeps what is known of the functions that wait for it.** -/
theorem Steps.spared (hguard : config.recursionGuard = true) (hm : module.Numbered)
    {outer : List Function} {since : Annotations} (h : Steps config module s s')
    (hs : Spared module outer since s) : Spared module outer since s' := by
  refine h.keeps ?_ ?_ ?_ hs
  · intro t action ht hc hfit
    exact ht.act hm hc hfit
  · intro t name args d ns ht hc hfree
    obtain ⟨e, inner, -, ha⟩ := ht.deeper
    refine ⟨ht.standing.enter hguard hfree hc.scope, ht.framed.enter hm hc,
      ⟨d, e :: inner, rfl, ?_⟩, ht.same⟩
    show d :: t.frame.active = _
    rw [ha, List.cons_append]
  · intro t t' name args d ns ht _ ht' _ _
    refine ⟨ht.standing.resume ht'.standing name d, ht.framed.resume ht'.framed name d,
      ht.deeper, ?_⟩
    rw [State.resumed_types]
    exact ht'.same

/-! ## Steps that give statements no types -/

/-- A step after which the types of statements are as before. -/
def Quiet {α : Type} (step : Run α) : Prop :=
  ∀ s a s', step s = .ok a s' → s'.types.stmts = s.types.stmts

namespace Quiet

variable {α β : Type}

theorem pure (a : α) : Quiet (pure a : Run α) := by
  intro s b s' h
  obtain ⟨-, rfl⟩ := pure_ok.1 h
  rfl

theorem bind {x : Run α} {f : α → Run β} (hx : Quiet x) (hf : ∀ a, Quiet (f a)) :
    Quiet (x >>= f) := by
  intro s b s' h
  obtain ⟨a, t, hxt, hft⟩ := bind_ok.1 h
  exact (hf a t b s' hft).trans (hx s a t hxt)

theorem forM {xs : List α} {f : α → Run Unit} (h : ∀ x, Quiet (f x)) : Quiet (xs.forM f) := by
  induction xs with
  | nil => exact pure ()
  | cons x xs ih => exact (h x).bind fun _ => ih

theorem exprType (e : Expr) : Quiet (exprType e) := by
  intro s b s' h
  obtain ⟨-, rfl⟩ := exprType_ok.1 h
  rfl

theorem annotate (i : Nat) (type : Option Ty) : Quiet (annotate i type) := by
  intro s b s' h
  obtain ⟨-, rfl⟩ := (annotate_does i type).1 h
  rfl

theorem bindName (name : String) (type : Option Ty) : Quiet (bindName name type) := by
  intro s b s' h
  obtain ⟨-, rfl⟩ := bindName_ok.1 h
  rfl

theorem assign (targets : List Expr) (value : Expr) : Quiet (assign targets value) := by
  refine Quiet.bind (.bind (.exprType value) fun type => ?_) fun type => .forM fun target => ?_
  · split
    · exact (annotate _ _).bind fun _ => pure _
    · exact pure _
  · unfold assignTarget
    split
    · exact (bindName _ _).bind fun _ => annotate _ _
    · exact pure ()

end Quiet

/-- Statements other than returns with a value give statements no types. -/
theorem concludeStmt_quiet {t : Stmt} (h : ∀ site value, t ≠ .returning site (some value)) :
    Quiet (concludeStmt config t) := by
  unfold concludeStmt
  split
  · exact .assign _ _
  · exact .assign _ _
  · exact .forM fun name => .bindName _ _
  · split
    · exact .forM fun name => .bindName _ _
    · exact .pure ()
  · intro s b s' h
    obtain ⟨-, rfl⟩ := define_ok.1 h
    rfl
  · exact absurd rfl (h _ _)
  · exact .pure ()

/-! ## What one node does -/

/-- The run is in the body of a function. -/
structure Walks (module : Module) (d : Function) (s : State) : Prop where
  standing : s.Standing module
  framed : s.Framed module
  function : s.frame.function = some d
  active : d ∈ s.frame.active

/-- The type of the value that is returned at a moment. -/
def returned? : Node × State → Option Ty
  | (.stmt (.returning _ (some value)), s) => s.types.ofExpr? value
  | _ => none

variable {d : Function}

theorem Walks.here (h : Walks module d s) {node : Node} (hn : Within d.body node) :
    s.Here module node := by
  rw [State.Here, Frame.body, h.function]
  exact hn

theorem Walks.steps (h : Walks module d s) (hguard : config.recursionGuard = true)
    (hm : module.Numbered) (hs : Steps config module s s') : Walks module d s' :=
  ⟨hs.standing hguard h.standing, hs.framed hm h.framed, hs.frame_eq ▸ h.function,
    hs.frame_eq ▸ h.active⟩

/-- A value with a type gives it to the function. -/
theorem recordReturn_credits (hf : s.frame.function = some d) {i : Nat} {value : Expr}
    (hr : recordReturn i value s = .ok u s') :
    s'.types.stmts.get? d.site.index
      = ((s.types.ofExpr? value).map .function).or (s.types.stmts.get? d.site.index) := by
  simp only [recordReturn, bind_ok, exprType_ok] at hr
  obtain ⟨_, _, ⟨rfl, rfl⟩, hr⟩ := hr
  cases ht : s.types.ofExpr? value with
  | none =>
    rw [ht] at hr
    obtain ⟨-, rfl⟩ := pure_ok.1 hr
    rfl
  | some type =>
    simp only [ht, credit, bind_ok, changeTypes_ok, annotateStmt_ok, note_ok, get_ok] at hr
    obtain ⟨_, _, ⟨_, ⟨-, rfl⟩, rfl⟩, _, _, rfl, _, _, ⟨rfl, rfl⟩, hr⟩ := hr
    simp only [hf, bind_ok, changeTypes_ok, annotateStmt_ok, note_ok] at hr
    obtain ⟨_, _, ⟨_, ⟨hfit, rfl⟩, rfl⟩, rfl⟩ := hr
    exact IndexTable.get?_put_self _ hfit

/-- A call gives nothing to the function it stands in. -/
theorem concludeCall_spares (hguard : config.recursionGuard = true) (hm : module.Numbered)
    (h : Walks module d s) {room : Nat} {site : Site} {func : Expr} {args : List Expr}
    {keywords : List (Keyword Expr)}
    (hn : Within d.body (.expr (.call site func args keywords)))
    (hr : concludeExpr config (enterBody config room) (.call site func args keywords) s
      = .ok u s') :
    s'.types.stmts.get? d.site.index = s.types.stmts.get? d.site.index := by
  obtain ⟨result, t, decision, -, rfl⟩ := concludeCall_decision hr
  refine ((Action.call _ _ result).get?_onTypes_stmts (by rintro ⟨⟩) t.types).trans ?_
  cases decision with
  | client | method | signature | unknown | skipped => rfl
  | @body callee name e ns s₁ s₂ _ he hns hfree hargs hbody _ =>
    obtain ⟨passed, calls, free⟩ : Acts config module s s₁ ∧ _ :=
      passArguments_acts ⟨⟨site, callee, keywords, h.here hn⟩, he, hns⟩ hfree hargs
    have before := h.steps hguard hm passed.steps
    have entered : Spared module s₁.frame.active s₁.types (s₁.entered ns e) :=
      ⟨before.standing.enter hguard free calls.scope, before.framed.enter hm calls,
        ⟨e, [], rfl, rfl⟩, fun _ _ => rfl⟩
    have after := (enterBody_steps config module room rfl hbody).spared hguard hm entered
    rw [State.resumed_types, after.same d before.active, passArguments_types hargs]

/-- **What a node gives to the function it stands in** is the type of its value, if
it is a `return`. -/
theorem conclude_credits (hguard : config.recursionGuard = true) (hm : module.Numbered)
    (h : Walks module d s) {room : Nat} {node : Node} (hn : Within d.body node)
    (hr : conclude config (enterBody config room) node s = .ok u s') :
    s'.types.stmts.get? d.site.index
      = ((returned? (node, s)).map .function).or (s.types.stmts.get? d.site.index) := by
  cases node with
  | expr e =>
    show _ = s.types.stmts.get? d.site.index
    by_cases hcall : ∃ site func args keywords, e = .call site func args keywords
    · obtain ⟨site, func, args, keywords, rfl⟩ := hcall
      exact concludeCall_spares hguard hm h hn hr
    · have hne : ∀ site func args keywords, e ≠ .call site func args keywords :=
        fun site func args keywords he => hcall ⟨site, func, args, keywords, he⟩
      rcases concludeExpr_other (h.here hn) hne hr with rfl | ⟨type, -, -, rfl⟩ <;> rfl
  | stmt t =>
    by_cases hreturn : ∃ site value, t = .returning site (some value)
    · obtain ⟨site, value, rfl⟩ := hreturn
      exact recordReturn_credits h.function hr
    · have hne : ∀ site value, t ≠ .returning site (some value) :=
        fun site value ht => hreturn ⟨site, value, ht⟩
      have nothing : returned? (.stmt t, s) = none := by
        unfold returned?
        split
        · next site value _ ht => exact absurd (Node.stmt.inj (Prod.mk.inj ht).1) (hne site value)
        · rfl
      rw [nothing, concludeStmt_quiet hne _ _ _ hr]
      rfl

/-! ## The moments of a walk -/

/-- **A walk over nodes,** with the nodes in the order in which they are concluded
and the states in which that happens. -/
inductive Concludes (config : Config) (enter : Function → Run Unit) :
    List Node → State → List (Node × State) → State → Prop
  | nil (s : State) : Concludes config enter [] s [] s
  | cons {node rest s parts t t' others s'} : Concludes config enter node.analyzed s parts t →
    conclude config enter node t = .ok () t' → Concludes config enter rest t' others s' →
    Concludes config enter (node :: rest) s (parts ++ (node, t) :: others) s'

theorem exists_moments_of_forM {enter : Function → Run Unit} {nodes : List Node}
    (h : ∀ node ∈ nodes, ∀ {s s'}, visit config enter node s = .ok () s' →
      ∃ parts t, Concludes config enter node.analyzed s parts t ∧
        conclude config enter node t = .ok () s')
    (hr : nodes.forM (visit config enter) s = .ok u s') :
    ∃ moments, Concludes config enter nodes s moments s' := by
  induction nodes generalizing s with
  | nil =>
    obtain ⟨-, rfl⟩ := pure_ok.1 hr
    exact ⟨[], .nil s⟩
  | cons node nodes ih =>
    obtain ⟨_, t', hnode, hr⟩ := bind_ok.1 hr
    obtain ⟨parts, t, visits, concluded⟩ := h node List.mem_cons_self hnode
    obtain ⟨others, rest⟩ := ih (fun n hn => h n (List.mem_cons_of_mem _ hn)) hr
    exact ⟨_, visits.cons concluded rest⟩

theorem exists_moments_of_visit {enter : Function → Run Unit} {node : Node} {s s' : State}
    (hr : visit config enter node s = .ok () s') :
    ∃ parts t, Concludes config enter node.analyzed s parts t ∧
      conclude config enter node t = .ok () s' := by
  rw [visit_eq] at hr
  obtain ⟨_, t, hparts, hr⟩ := bind_ok.1 hr
  obtain ⟨parts, visits⟩ := exists_moments_of_forM
    (fun child hc {_ _} hv => exists_moments_of_visit hv) hparts
  exact ⟨parts, t, visits, hr⟩
termination_by node.rank
decreasing_by exact Node.rank_lt_of_mem_children (Node.mem_children_of_mem_analyzed hc)

/-- A walk concludes the nodes and all that stands in them, outside of
definitions. -/
theorem Concludes.mem_iff {enter : Function → Run Unit} {nodes : List Node}
    {moments : List (Node × State)} (h : Concludes config enter nodes s moments s') {n : Node} :
    n ∈ moments.map Prod.fst ↔ ∃ node ∈ nodes, n ∈ node.own := by
  induction h with
  | nil => simp
  | @cons node _ _ _ _ _ _ _ _ _ _ ih ih' =>
    have own : n ∈ node.own ↔ (∃ child ∈ node.analyzed, n ∈ child.own) ∨ n = node := by
      cases ho : node.opensScope with
      | true => simp [Node.own_of_opensScope ho, mem_analyzed, ho]
      | false =>
        simp [Node.own_of_not_opensScope ho, mem_analyzed, ho, Node.mem_children, or_comm]
    simp [ih, ih', own, or_assoc]

/-- **In a walk, the last `return` that has a type wins.** -/
theorem Concludes.credits (hguard : config.recursionGuard = true) (hm : module.Numbered) {room : Nat}
    {nodes : List Node} {moments : List (Node × State)}
    (h : Concludes config (enterBody config room) nodes s moments s') (hs : Walks module d s)
    (hn : ∀ node ∈ nodes, Within d.body node) :
    Walks module d s' ∧ s'.types.stmts.get? d.site.index
      = ((moments.reverse.findSome? returned?).map .function).or
        (s.types.stmts.get? d.site.index) := by
  induction h with
  | nil => exact ⟨hs, rfl⟩
  | @cons node rest s parts t t' others s' _ hr _ ih ih' =>
    have here := hn node List.mem_cons_self
    obtain ⟨walks, first⟩ := ih hs fun child hc =>
      here.part (mem_analyzed.1 hc).1 (mem_analyzed.1 hc).2
    have concluded := conclude_credits hguard hm walks here hr
    have steps : Steps config module t t' :=
      conclude_steps (enterBody_steps config module room) (walks.here here) hr
    obtain ⟨walks', last⟩ := ih' (walks.steps hguard hm steps) fun n hmem =>
      hn n (List.mem_cons_of_mem _ hmem)
    refine ⟨walks', ?_⟩
    rw [last, concluded, first, List.append_cons, List.reverse_append, List.reverse_append,
      List.findSome?_append, List.findSome?_append, Option.map_or, Option.map_or, Option.or_assoc,
      Option.or_assoc]
    simp

end Inference

open Inference

/-- **Returns are credited to the function they stand in, and the last one wins.**
Wherever a run comes to a call of a function that may be entered, let the walk over
its body succeed. The walk concludes what stands in the body outside of definitions.
Afterwards the function has the type of the value of the `return` concluded last
among those whose value had a type at that moment; if there was none, it has the
type it had before. And what is known of the functions that were being analyzed
before is unchanged. -/
theorem walk_credits_last_return {config : Config} (hguard : config.recursionGuard = true)
    {application : Bool} {source : Source} {module : Module}
    (hp : Analysis.parse config application source = .ok module) {room : Nat}
    {site callee : Site} {name : String} {args : List Expr} {keywords : List (Keyword Expr)}
    {s s₁ s₂ : State} {d : Function} {ns : Namespace}
    (h : Reaches config module (room + 1) (.expr (.call site (.name callee name) args keywords))
      [] s)
    (hd : s.env.definition s.frame.ns name = .ok d)
    (hns : s.env.definitionNamespace s.frame.ns d = .ok ns) (hfree : Free config s d)
    (hargs : passArguments ns args d.params.args s = .ok () s₁)
    (hbody : enterBody config (room + 1) d (s₁.entered ns d) = .ok () s₂) :
    ∃ moments,
      Concludes config (enterBody config room) (stmtNodes d.body) (s₁.entered ns d) moments s₂ ∧
      (∀ node, node ∈ moments.map Prod.fst ↔ Within d.body node) ∧
      s₂.types.stmts.get? d.site.index
        = ((moments.reverse.findSome? returned?).map .function).or
          (s₁.types.stmts.get? d.site.index) ∧
      ∀ f ∈ s.frame.active,
        s₂.types.stmts.get? f.site.index = s₁.types.stmts.get? f.site.index := by
  have hm := Analysis.parse_numbered hp
  obtain ⟨⟨standing, framed⟩, here, -⟩ := h.keeps (P := fun t => t.Standing module ∧ t.Framed module)
    ⟨.start module, State.placed_start module _ _ _, rfl, rfl⟩
    (fun hs hr => ⟨hr.standing hguard hs.1, hr.framed hm hs.2⟩)
    (fun hs hc hfree => ⟨hs.1.enter hguard hfree hc.scope, hs.2.enter hm hc⟩)
  obtain ⟨passed, calls, free⟩ : Acts config module s s₁ ∧ _ :=
    passArguments_acts ⟨⟨site, callee, keywords, here⟩, hd, hns⟩ hfree hargs
  have standing₁ := (passed.steps.standing hguard standing).enter hguard free calls.scope
  have framed₁ := (passed.steps.framed hm framed).enter hm calls
  have visited : (stmtNodes d.body).forM (visit config (enterBody config room)) (s₁.entered ns d)
      = .ok () s₂ :=
    (congrFun List.forM_map _).trans hbody
  obtain ⟨moments, visits⟩ := exists_moments_of_forM
    (fun node _ {_ _} hv => exists_moments_of_visit hv) visited
  have nodes : ∀ node ∈ stmtNodes d.body, Within d.body node := by
    intro node hnode
    obtain ⟨t, ht, rfl⟩ := mem_stmtNodes.1 hnode
    exact .stmt ht
  have credited := (visits.credits hguard hm ⟨standing₁, framed₁, rfl, List.mem_cons_self⟩ nodes).2
  have outside : Spared module s₁.frame.active s₁.types (s₁.entered ns d) :=
    ⟨standing₁, framed₁, ⟨d, [], rfl, rfl⟩, fun _ _ => rfl⟩
  have spared := (enterBody_steps config module _ rfl hbody).spared hguard hm outside
  refine ⟨moments, visits, fun node => ?_, credited, passArguments_frame hargs ▸ spared.same⟩
  rw [visits.mem_iff, within_iff, List.mem_flatMap]

/-- A function that returns two things and then nothing, and a call of it. -/
def returnsTwice : Source where
  file := "main.py"
  text := "import boto3\ndef g():\n return boto3\n return boto3.client\n return\ng()\n"

/-- The import in `returnsTwice`. -/
def importSdk : Stmt := .importModules ⟨⟨1, 1, 0, 12⟩, 0⟩ [⟨⟨1, 8, 7, 12⟩, "boto3", none⟩]

/-- The function `g` of `returnsTwice`. -/
def twoReturns : Function :=
  ⟨⟨⟨2, 1, 13, 65⟩, 4⟩, ⟨"g", ⟨2, 5, 17, 18⟩⟩, ⟨[], none, [], none⟩, none, [],
    [.returning ⟨⟨3, 2, 23, 35⟩, 1⟩ (some (.name ⟨⟨3, 9, 30, 35⟩, 0⟩ "boto3")),
      .returning ⟨⟨4, 2, 37, 56⟩, 2⟩ (some (.member ⟨⟨4, 9, 44, 56⟩, 2⟩
        (.name ⟨⟨4, 9, 44, 49⟩, 1⟩ "boto3") ⟨"client", ⟨4, 15, 50, 56⟩⟩)),
      .returning ⟨⟨5, 2, 58, 64⟩, 3⟩ none], false⟩

/-- The call `g()`. -/
def twoReturnsCall : Expr := .call ⟨⟨6, 1, 65, 68⟩, 4⟩ (.name ⟨⟨6, 1, 65, 66⟩, 3⟩ "g") [] []

/-- The module that `returnsTwice` is parsed to. -/
def returnsTwiceModule : Module where
  body := [importSdk, .functionDef twoReturns, .expr ⟨⟨6, 1, 65, 68⟩, 5⟩ twoReturnsCall]
  expressions := 5
  statements := 6

/-- The fields of a module that has the nodes of `returnsTwice`. -/
def returnsTwiceFields? : Module → Option (Alias × List Ident × List String × List Site)
  | ⟨[.importModules i [a], .functionDef ⟨d, g, ⟨[], none, [], none⟩, none, [],
      [.returning r (some (.name n b)), .returning s (some (.member m (.name k c) l)),
        .returning t none], false⟩, .expr e (.call f (.name h u) [] [])], 5, 6⟩ =>
    some (a, [g, l], [b, c, u], [i, d, r, n, s, m, k, t, e, f, h])
  | _ => none

theorem parse_returnsTwice : Analysis.parse {} false returnsTwice = .ok returnsTwiceModule := by
  -- Evaluation cannot compare two modules, but it can compare such fields.
  have fields : (Analysis.parse {} false returnsTwice).toOption.bind returnsTwiceFields?
      = returnsTwiceFields? returnsTwiceModule := by
    decide +kernel
  cases h : Analysis.parse {} false returnsTwice with
  | error =>
    rw [h] at fields
    cases fields
  | ok module =>
    rw [h, Except.toOption, Option.bind_some] at fields
    revert fields
    fun_cases returnsTwiceFields? module with
    | case1 =>
      rintro ⟨⟩
      rfl
    | case2 => rintro ⟨⟩

/-- The state before the call `g()`. -/
def beforeReturns : State :=
  final (visitAll {} (enterBody {} 26) [importSdk, .functionDef twoReturns]
    (Analysis.initial returnsTwiceModule))

/-- The state in which the call `g()` is decided. -/
def atReturns : State :=
  final (visit {} (enterBody {} 26) (.expr (.name ⟨⟨6, 1, 65, 66⟩, 3⟩ "g")) beforeReturns)

theorem reaches_atReturns :
    Reaches {} returnsTwiceModule 26 (.expr twoReturnsCall) [] atReturns := by
  have defined : visitAll {} (enterBody {} 26) [importSdk, .functionDef twoReturns]
      (Analysis.initial returnsTwiceModule) = .ok () beforeReturns := ok_final (by decide +kernel)
  have room : nestingBound returnsTwiceModule = 26 := by decide +kernel
  rw [← room] at defined
  have before : Reaches {} returnsTwiceModule _
      (.stmt (.expr ⟨⟨6, 1, 65, 68⟩, 5⟩ twoReturnsCall)) _ beforeReturns := .top rfl defined
  rw [room] at before
  exact before.part.next (ok_final (by decide +kernel))

/-- The function gets the type of the second thing it returns. -/
theorem returnsTwice_credits_second :
    Analysis.parse {} false returnsTwice = .ok returnsTwiceModule ∧
    Reaches {} returnsTwiceModule 26 (.expr twoReturnsCall) [] atReturns ∧
    ∃ s₂ moments, enterBody {} 26 twoReturns (atReturns.entered ⟨1, 0⟩ twoReturns) = .ok () s₂ ∧
      Concludes {} (enterBody {} 25) (stmtNodes twoReturns.body)
        (atReturns.entered ⟨1, 0⟩ twoReturns) moments s₂ ∧
      moments.reverse.findSome? returned? = some .clientFactory ∧
      s₂.types.stmts.get? 4 = some (.function .clientFactory) := by
  have definition : atReturns.env.definition atReturns.frame.ns "g" = .ok twoReturns := by
    with_unfolding_all rfl
  have ns : atReturns.env.definitionNamespace atReturns.frame.ns twoReturns = .ok ⟨1, 0⟩ := by
    decide +kernel
  have free : Free {} atReturns twoReturns := by
    unfold Free
    decide +kernel
  have walk : enterBody {} 26 twoReturns (atReturns.entered ⟨1, 0⟩ twoReturns) = .ok () _ :=
    ok_final (by decide +kernel)
  obtain ⟨moments, concludes, -, credited, -⟩ := walk_credits_last_return rfl
    parse_returnsTwice reaches_atReturns definition ns free rfl walk
  have second : (final (enterBody {} 26 twoReturns
      (atReturns.entered ⟨1, 0⟩ twoReturns))).types.stmts.get? 4 = some (.function .clientFactory) := by
    decide +kernel
  have unknown : atReturns.types.stmts.get? twoReturns.site.index = none := by decide +kernel
  have last : moments.reverse.findSome? returned? = some .clientFactory := by
    have agree := credited.symm.trans second
    rw [unknown, Option.or_none, Option.map_eq_some_iff] at agree
    obtain ⟨type, found, same⟩ := agree
    cases same
    exact found
  exact ⟨parse_returnsTwice, reaches_atReturns, _, moments, walk, concludes, last, second⟩

end SdkUsage
