/-
Functions of the module that are defined again. The definition that calls of a
name go by, `inForce`, is the last one that was visited while the name had no
signature; it is the last one of all, unless the name got its signature from an
earlier one.
-/
import SdkUsage.Proofs.EntryPoint
import SdkUsage.Proofs.Inference.Signature

namespace SdkUsage

open SdkUsage.Tree SdkUsage.Inference

namespace Inference

variable {config : Config} {module : Module} {name : String} {enter : Function → Run Unit}
  {s s' : State} {callee site : Site} {args : List Expr} {keywords : List (Keyword Expr)}
  {action : Action} {bound : Nat} {result : Option Ty}

/-! ## The arguments of a call -/

/-- What is looked up at a call is not among the arguments. -/
theorem callee_not_mem (hm : module.Numbered)
    (hn : Within module.body (.expr (.call site (.name callee name) args keywords))) {e : Expr}
    (he : .expr e ∈ (argumentNodes args keywords).flatMap Node.preorder)
    (hw : Within module.body (.expr e)) : e.index ≠ callee.index := by
  intro hi
  have part : Node.Part (.expr (.name callee name)) (.expr (.call site (.name callee name) args
      keywords)) := Node.mem_children.1 (by simp [Node.children, Expr.children])
  cases hm.expr_eq hw.mem_nodes (hn.part rfl part).mem_nodes hi
  have nodup := hm.nodup_preorder hn.mem_nodes
  rw [Node.preorder_eq] at nodup
  have parts : ((Node.expr (.name callee name)).preorder ++
      (argumentNodes args keywords).flatMap Node.preorder).Nodup := (List.nodup_cons.1 nodup).2
  exact (List.nodup_append.1 parts).2.2 _ (Node.mem_preorder_self _) _ he rfl

/-- Between two states in the module, what a call has looked up and the functions
under the name are as before. -/
def Undisturbed (module : Module) (name : String) (callee : Site) (s s' : State) : Prop :=
  s.Framed module → s'.Framed module ∧
    s'.types.exprs.get? callee.index = s.types.exprs.get? callee.index ∧
    s'.env.definitions.get? (SymbolTable.root, name)
      = s.env.definitions.get? (SymbolTable.root, name) ∧
    inForce name s'.trace = inForce name s.trace

namespace Undisturbed

variable {callee : Site}

theorem refl (s : State) : Undisturbed module name callee s s := fun h => ⟨h, rfl, rfl, rfl⟩

theorem trans {a b c : State} (h : Undisturbed module name callee a b)
    (h' : Undisturbed module name callee b c) : Undisturbed module name callee a c := by
  intro ha
  obtain ⟨hb, he, hd, hf⟩ := h ha
  obtain ⟨hc, he', hd', hf'⟩ := h' hb
  exact ⟨hc, he'.trans he, hd'.trans hd, hf'.trans hf⟩

/-- Another expression gets a type. -/
theorem act (hm : module.Numbered) (hc : Cause config module s action) (hfits : action.Fits s)
    (hscope : action.scope? = none) (hexprs : (action.onTypes s.types).exprs.get? callee.index
      = s.types.exprs.get? callee.index) : Undisturbed module name callee s (s.act action) := by
  intro hs
  refine ⟨(Steps.one hc hfits).framed hm hs, hexprs, ?_, inForce_append_silent (silent_events hscope)⟩
  rw [State.act_env, onEnv_eq hscope]

/-- A function is called. -/
theorem body (hm : module.Numbered) (he : Enters config module enter) {node : Expr}
    (hnode : Within module.body (.expr node)) (hi : node.index = callee.index)
    {id : String} {args : List Expr} {d : Function} {ns : Namespace} {s₁ s₂ : State}
    (hc : s.Calls module id args d ns) (hfree : Free config s d)
    (hp : passArguments ns args d.params.args s = .ok () s₁)
    (hb : enter d (s₁.entered ns d) = .ok () s₂) :
    Undisturbed module name callee s (s₂.resumed s.frame id d) := by
  intro hs
  obtain ⟨run, apart⟩ := body_apart hm he hs hc hfree hp hb
  obtain ⟨acts, calls, -⟩ : Acts config module s s₁ ∧ _ := passArguments_acts hc hfree hp
  have framed := run.framed hm ((acts.steps.framed hm hs).enter hm calls)
  obtain ⟨events, htrace, hapart⟩ := apart.trace
  refine ⟨hs.resume framed id d, ?_, ?_, ?_⟩
  · rw [State.resumed_types, ← hi]
    exact apart.exprs node hnode
  · show ((Action.bind _ _ _).onEnv s₂.env).definitions.get? _ = _
    rw [Action.definitions_bind]
    exact (apart.env name).2
  · show inForce name s₂.trace = _
    rw [htrace, inForce_append_apart hapart]

end Undisturbed

/-- **Analyzing the arguments of a call in the module does not disturb it.** -/
theorem arguments_undisturbed (hm : module.Numbered) (he : Enters config module enter) {u : Unit}
    (hn : Within module.body (.expr (.call site (.name callee name) args keywords)))
    (hs : s.frame.function = none)
    (hr : (argumentNodes args keywords).forM (visit config enter) s = .ok u s') :
    Undisturbed module name callee s s' := by
  have body : s.frame.body module = module.body := by rw [Frame.body, hs]
  have part : Node.Part (.expr (.name callee name)) (.expr (.call site (.name callee name) args
      keywords)) := Node.mem_children.1 (by simp [Node.children, Expr.children])
  have within : ∀ x ∈ argumentNodes args keywords, Within module.body x := fun x hx =>
    hn.part rfl (Node.mem_children.1 (List.mem_cons_of_mem _ hx))
  -- The nodes are those below the arguments.
  let Q : Node → Prop := fun n =>
    n ∈ (argumentNodes args keywords).flatMap Node.preorder ∧ Within module.body n
  have parts : ∀ {n child}, Q n → child ∈ n.analyzed → Q child := by
    intro n child hq hc
    obtain ⟨x, hx, hnx⟩ := List.mem_flatMap.1 hq.1
    have hchild := Node.mem_children_of_mem_analyzed hc
    exact ⟨List.mem_flatMap.2 ⟨x, hx, Node.mem_preorder_of_part hnx hchild⟩,
      hq.2.part (mem_analyzed.1 hc).1 (mem_analyzed.1 hc).2⟩
  have one : ∀ x ∈ argumentNodes args keywords, ∀ {t t' : State} {u : Unit}, t.frame = s.frame →
      visit config enter x t = .ok u t' →
      Undisturbed module name callee t t' ∧ t'.frame = s.frame := by
    intro x hx t t' u ht hr
    have hq : Q x := ⟨List.mem_flatMap.2 ⟨x, hx, Node.mem_preorder_self x⟩, within x hx⟩
    refine visit_relates he (Q := Q) Undisturbed.refl Undisturbed.trans
      (fun hq => body ▸ hq.2) parts ?_ ?_ hq ht hr
    · intro n a b hq hne ha hr
      obtain ⟨y, hy, hny⟩ := List.mem_flatMap.1 hq.1
      obtain ⟨_, _, rfl⟩ := mem_exprNodes.1 hy
      obtain ⟨e, rfl⟩ := Node.exists_expr_of_mem_preorder hny
      have here : a.Here module (.expr e) := by rw [State.Here, ha, body]; exact hq.2
      have hne' : ∀ site func args keywords, e ≠ .call site func args keywords :=
        fun site func args keywords h => hne site func args keywords (congrArg Node.expr h)
      rcases concludeExpr_other here hne' hr with rfl | ⟨type, hc, hf, rfl⟩
      · exact .refl _
      · refine .act hm hc hf rfl (IndexTable.get?_put_other _ ?_)
        exact (callee_not_mem hm hn hq.1 hq.2).symm
    · intro site' func' args' keywords' a t b c hq ha hfunc first ht hargs rest hb hr
      obtain ⟨result, e, decision, fits, rfl⟩ := concludeCall_decision hr
      have here : b.Here module (.expr (.call site' func' args' keywords')) := by
        rw [State.Here, hb, body]
        exact hq.2
      have decided : Undisturbed module name callee b e := by
        cases decision with
        | client | method | signature | unknown => exact .refl _
        | skipped hd hns guard active =>
          have cause : Cause config module b _ := .skipped ⟨⟨_, _, _, here⟩, hd, hns⟩ guard active
          exact .act hm cause trivial rfl rfl
        | body _ hd hns hfree hp hbody _ =>
          exact .body hm he (hn.part rfl part) rfl ⟨⟨_, _, _, here⟩, hd, hns⟩ hfree hp hbody
      have cause : Cause config module e _ :=
        .called (here.of_frame decision.frame_eq) decision.outcome
      refine first.trans (rest.trans (decided.trans (.act hm cause fits rfl ?_)))
      cases result with
      | none => rfl
      | some type =>
        exact IndexTable.get?_put_other _ (callee_not_mem hm hn hq.1 hq.2).symm
  exact (forM_chain Undisturbed.refl Undisturbed.trans one rfl hr).1

/-! ## The name and its function -/

/-- The name has no type and stands for the function in force, or it has the
signature of that function. -/
def Settled (module : Module) (name : String) (s : State) : Prop :=
  (lastBound name s.trace = none ∧
    (s.env.definitions.get? (SymbolTable.root, name)).map (·.site.index)
      = inForce name s.trace) ∨
  ∃ d returns, Within module.body (.stmt (.functionDef d)) ∧ d.name.text = name ∧
    inForce name s.trace = some d.site.index ∧ Frozen module name d returns s

theorem inForce_other (h : ∀ scope id d, action ≠ .define scope id d) (trace : List Event) :
    inForce name (action.events ++ trace) = inForce name trace := by
  cases action with
  | define scope id d => exact absurd rfl (h scope id d)
  | call i callee result => cases result <;> rfl
  | annotate | record | credit | bind | skip => rfl

theorem definitions_other (h : ∀ scope id d, action ≠ .define scope id d) (env : Environment) :
    (action.onEnv env).definitions = env.definitions := by
  cases action with
  | define scope id d => exact absurd rfl (h scope id d)
  | bind => exact Action.definitions_bind ..
  | annotate | record | credit | call | skip => rfl

section Settles

variable (hm : module.Numbered)
  (only : ∀ t, Within module.body (.stmt t) → t.gives name = false)

include hm only

/-- No action but a call changes how a name is settled. -/
theorem Settled.act (h : Settled module name s) (hs : s.Tracked module name)
    (hc : Cause config module s action) (hf : action.Fits s) :
    Settled module name (s.act action) := by
  have bound : lastBound name (s.act action).trace = lastBound name s.trace := by
    rw [← (hs.act hm hc hf).bound, ← hs.bound, hc.root_kept hm only hs.framed]
  by_cases hdefine : ∃ scope id d, action = .define scope id d
  · obtain ⟨scope, id, d, rfl⟩ := hdefine
    have force : inForce name (s.act (.define scope id d)).trace
        = if scope = SymbolTable.root ∧ id = name ∧ lastBound name s.trace = none
          then some d.site.index else inForce name s.trace := rfl
    rcases h with ⟨hnone, hdefs⟩ | ⟨d', returns, hd, hname, hforce, hfrozen⟩
    · refine .inl ⟨bound.trans hnone, ?_⟩
      rw [force, State.act_env, Action.get?_define]
      by_cases hkey : (SymbolTable.root, name) = (scope, id)
      · obtain ⟨rfl, rfl⟩ := Prod.mk.inj hkey
        rw [if_pos rfl, if_pos ⟨rfl, rfl, hnone⟩]
        rfl
      · rw [if_neg hkey, if_neg fun hc => hkey (by rw [hc.1, hc.2.1])]
        exact hdefs
    · -- The name keeps its signature.
      refine .inr ⟨d', returns, hd, hname, ?_, (Freezes.act hm only hd hc hf hfrozen).1⟩
      have signed : lastBound name s.trace ≠ none := by
        rw [← hs.bound, hfrozen.signature]
        rintro ⟨⟩
      rw [force, if_neg fun hc => signed hc.2.2]
      exact hforce
  · have hne : ∀ scope id d, action ≠ .define scope id d :=
      fun scope id d h => hdefine ⟨scope, id, d, h⟩
    have force : inForce name (s.act action).trace = inForce name s.trace := inForce_other hne _
    rcases h with ⟨hnone, hdefs⟩ | ⟨d, returns, hd, hname, hforce, hfrozen⟩
    · refine .inl ⟨bound.trans hnone, ?_⟩
      rw [force, State.act_env, definitions_other hne]
      exact hdefs
    · exact .inr ⟨d, returns, hd, hname, force.trans hforce,
        (Freezes.act hm only hd hc hf hfrozen).1⟩

end Settles

/-! ## Calls of the name -/

/-- Every call of the name in the module after a definition was decided by the
definition in force: its type is what was then known to be returned. -/
def Judged (module : Module) (name : String) (trace : List Event) : Prop :=
  ∀ ⦃site callee args keywords⦄,
    Within module.body (.expr (.call site (.name callee name) args keywords)) →
    ∀ ⦃type result before⦄, .called site.index type result :: before <:+ trace →
      (∃ i, .defined SymbolTable.root name i ∈ before) →
      ∃ d, inForce name before = some d ∧ result = returnType (lastStmt d before)

namespace Judged

variable {trace events : List Event}

theorem append (h : Judged module name trace)
    (hevents : ∀ event ∈ events, ∀ e, Within module.body (.expr e) → ∀ type result,
      event ≠ .called e.index type result) : Judged module name (events ++ trace) := by
  induction events with
  | nil => exact h
  | cons event events ih =>
    intro site callee args keywords hn type result before hb hd
    rcases List.suffix_cons_iff.1 hb with heq | hb
    · cases heq
      exact absurd rfl (hevents _ List.mem_cons_self _ hn type result)
    · exact ih (fun e he => hevents e (List.mem_cons_of_mem _ he)) hn hb hd

theorem apart (h : Judged module name trace) (ha : ∀ event ∈ events, event.Apart module) :
    Judged module name (events ++ trace) := by
  refine h.append fun event he e hn type result heq => ?_
  have apart := ha event he
  rw [heq] at apart
  exact apart e hn rfl

theorem act (h : Judged module name trace) (hn : action.isCall = false) :
    Judged module name (action.events ++ trace) := by
  refine h.append fun event he e _ type result heq => ?_
  subst heq
  cases action with
  | call => cases hn
  | annotate | record | credit | bind | define | skip => cases List.mem_singleton.1 he

/-- A call is decided. -/
theorem call (h : Judged module name trace) (hm : module.Numbered) {site : Site} {func : Expr}
    {args : List Expr} {keywords : List (Keyword Expr)} {type result : Option Ty}
    (hn : Within module.body (.expr (.call site func args keywords)))
    (hc : ∀ callee, func = .name callee name →
      (∃ i, .defined SymbolTable.root name i ∈ trace) →
      ∃ d, inForce name trace = some d ∧ result = returnType (lastStmt d trace)) :
    Judged module name ((Action.call site.index type result).events ++ trace) := by
  have called : Judged module name (.called site.index type result :: trace) := by
    intro site' callee args' keywords' hn' type' result' before hb hd
    rcases List.suffix_cons_iff.1 hb with heq | hb
    · obtain ⟨hevent, rfl⟩ := List.cons.inj heq
      obtain ⟨hi, -, rfl⟩ := Event.called.inj hevent
      cases hm.expr_eq hn'.mem_nodes hn.mem_nodes hi
      exact hc callee rfl hd
    · exact h hn' hb hd
  cases result with
  | none => exact called
  | some result =>
    have annotated : ∀ event ∈ [Event.annotated site.index (some result)], ∀ e,
        Within module.body (.expr e) → ∀ type result, event ≠ .called e.index type result := by
      intro event he e _ type' result' heq
      cases List.mem_singleton.1 he
      cases heq
    exact called.append annotated

end Judged

/-! ## Runs over the module -/

/-- The name is settled, and calls of it have been decided accordingly. -/
structure Faithful (module : Module) (name : String) (s : State) : Prop where
  tracked : s.Tracked module name
  settled : Settled module name s
  judged : Judged module name s.trace

theorem Faithful.start (module : Module) (name : String) :
    Faithful module name (Analysis.initial module) where
  tracked := .start module name
  settled := .inl ⟨rfl, rfl⟩
  judged := by
    intro site callee args keywords _ type result before hb
    exact absurd hb (by simp [Analysis.initial, State.start])

section Run

variable (hm : module.Numbered)
  (only : ∀ t, Within module.body (.stmt t) → t.gives name = false)

include hm only

theorem Faithful.acts (h : Faithful module name s) (ha : Acts config module s s') :
    Faithful module name s' :=
  ha.keeps (fun hs hc hn hf =>
    ⟨hs.tracked.act hm hc hf, hs.settled.act hm only hs.tracked hc hf, hs.judged.act hn⟩) h

/-- The body of a function that is called in the module. Under the name itself
this is the function in force. -/
theorem Faithful.body {bound : Nat} (h : Faithful module name s)
    (hfun : s.frame.function = none) {id : String} {args : List Expr} {d : Function}
    {ns : Namespace} {s₁ s₂ : State} (hc : s.Calls module id args d ns)
    (hfree : Free config s d) (hp : passArguments ns args d.params.args s = .ok () s₁)
    (hb : enterBody config bound d (s₁.entered ns d) = .ok () s₂)
    (hf : (s₂.signature s.frame id d).Fits s₂)
    (hforce : id = name → inForce name s.trace = some d.site.index) :
    Faithful module name (s₂.resumed s.frame id d) ∧
      inForce name (s₂.resumed s.frame id d).trace = inForce name s.trace := by
  have ns_eq := h.tracked.framed.ns_eq hfun
  obtain ⟨run, apart⟩ := body_apart hm (enterBody_steps config module bound) h.tracked.framed hc hfree hp hb
  obtain ⟨acts, calls, -⟩ : Acts config module s s₁ ∧ _ := passArguments_acts hc hfree hp
  have inner := run.tracked hm ((acts.steps.tracked hm h.tracked).enter hm calls)
  have tracked := h.tracked.resume inner hf
  obtain ⟨events, htrace, hapart⟩ := apart.trace
  have force : inForce name (s₂.resumed s.frame id d).trace = inForce name s.trace := by
    show inForce name s₂.trace = _
    rw [htrace, inForce_append_apart hapart]
  have judged : Judged module name (s₂.resumed s.frame id d).trace := by
    have left : Judged module name ([.left d.site.index] ++ s₂.trace) := by
      refine Judged.append (htrace ▸ h.judged.apart hapart) ?_
      intro event he e _ type result heq
      cases List.mem_singleton.1 he
      cases heq
    exact left.act rfl
  have definitions : (s₂.resumed s.frame id d).env.definitions.get? (SymbolTable.root, name)
      = s.env.definitions.get? (SymbolTable.root, name) := by
    show ((Action.bind _ _ _).onEnv s₂.env).definitions.get? _ = _
    rw [Action.definitions_bind]
    exact (apart.env name).2
  have type : (s₂.resumed s.frame id d).env.types.get? (SymbolTable.root, name)
      = if name = id then s₂.types.stmts.get? d.site.index
        else s₂.env.types.get? (SymbolTable.root, name) := by
    show ((Action.bind s.frame.ns.scope id _).onEnv s₂.env).types.get? _ = _
    rw [Action.get?_bind, ns_eq]
    simp [Namespace.module]
  obtain ⟨owner, howner, hd⟩ := Environment.definition_ok.1 hc.found
  rw [ns_eq] at howner
  cases Environment.owner_module howner
  obtain ⟨hname, hwithin⟩ := h.tracked.owned hd
  refine ⟨⟨tracked, ?_, judged⟩, force⟩
  by_cases hid : name = id
  · subst hid
    rw [if_pos rfl] at type
    cases hty : s₂.types.stmts.get? d.site.index with
    | none =>
      refine .inl ⟨by rw [← tracked.bound, type, hty], ?_⟩
      rw [definitions, hd, force, hforce rfl]
      rfl
    | some found =>
      obtain ⟨returns, rfl⟩ := inner.functions (hwithin.2 rfl).mem_nodes hty
      refine .inr ⟨d, returns, hwithin.2 rfl, hname, force.trans (hforce rfl), tracked, ?_, ?_, ?_⟩
      · rw [type, hty]
      · rw [State.resumed_types, hty]
      · show s.frame.function ≠ some d
        rw [hfun]
        rintro ⟨⟩
  · rw [if_neg hid] at type
    rcases h.settled with ⟨hnone, hdefs⟩ | ⟨d', returns, hd', hname', hforce', hfrozen⟩
    · refine .inl ⟨?_, by rw [definitions, force, hdefs]⟩
      rw [← tracked.bound, type, (apart.env name).1, h.tracked.bound, hnone]
    · refine .inr ⟨d', returns, hd', hname', force.trans hforce', ?_⟩
      refine (hfrozen.body hm only hd' hname' (enterBody_freezes hm only hd' hname' bound) hc hfree
        hp hb hf fun owner _ hkey => hid (Prod.mk.inj hkey).2).1

/-- Where nothing is found under the name, the function in force decides. -/
theorem Faithful.decide_open {e : State} (h : Faithful module name s)
    (hfun : s.frame.function = none)
    (here : s.Here module (.expr (.call site (.name callee name) args keywords)))
    (howner : s.env.owner s.frame.ns name = .ok (some SymbolTable.root))
    (nothing : s.types.ofExpr? (.name callee name) = none)
    (hforce : (s.env.definitions.get? (SymbolTable.root, name)).map (·.site.index)
      = inForce name s.trace)
    (hd : Decision config (enterBody config bound) args keywords s (.name callee name) result e) :
    Faithful module name e ∧ ((∃ i, .defined SymbolTable.root name i ∈ e.trace) →
      ∃ d, inForce name e.trace = some d ∧ result = returnType (lastStmt d e.trace)) := by
  cases hd with
  | client hc => cases nothing.symm.trans hc
  | method hc => cases nothing.symm.trans hc
  | signature hc => cases nothing.symm.trans hc
  | unknown _ hdefines =>
    refine ⟨h, fun ⟨i, hi⟩ => ?_⟩
    obtain ⟨d, hd⟩ := Option.isSome_iff_exists.1 (h.tracked.visited hi)
    have defines : s.env.definition s.frame.ns name = .ok d :=
      Environment.definition_ok.2 ⟨_, howner, hd⟩
    have undefined := hdefines callee name rfl
    rw [Environment.defines, defines] at undefined
    cases undefined
  | skipped _ _ _ active =>
    rw [Frame.isActive, h.tracked.idle hfun] at active
    cases active
  | @body _ _ d ns s₁ s₂ _ hdef hns hfree hp hbody hf =>
    obtain ⟨_, howner', hd⟩ := Environment.definition_ok.1 hdef
    cases howner.symm.trans howner'
    have force : inForce name s.trace = some d.site.index := by
      rw [← hforce, hd]
      rfl
    obtain ⟨faithful, same⟩ := h.body hm only hfun ⟨⟨site, callee, keywords, here⟩, hdef, hns⟩
      hfree hp hbody hf fun _ => force
    refine ⟨faithful, fun _ => ⟨d.site.index, same.trans force, ?_⟩⟩
    rw [← faithful.tracked.recorded.stmts, State.resumed_types]

omit hm only in
/-- Where the signature of the function in force is found, it decides. -/
theorem Faithful.decide_signature {e : State} {d : Function} {returns : Ty}
    (h : Faithful module name s) (hfun : s.frame.function = none)
    (found : s.types.ofExpr? (.name callee name) = some (.function returns))
    (frozen : Frozen module name d returns s) (hforce : inForce name s.trace = some d.site.index)
    (hd : Decision config enter args keywords s (.name callee name) result e) :
    Faithful module name e ∧ ((∃ i, .defined SymbolTable.root name i ∈ e.trace) →
      ∃ d, inForce name e.trace = some d ∧ result = returnType (lastStmt d e.trace)) := by
  cases hd with
  | client hc => cases found.symm.trans hc
  | method hc => cases found.symm.trans hc
  | signature hc =>
    cases found.symm.trans hc
    refine ⟨h, fun _ => ⟨d.site.index, hforce, ?_⟩⟩
    rw [← h.tracked.recorded.stmts, frozen.type]
    rfl
  | unknown hopen =>
    rw [found] at hopen
    exact hopen.elim
  | skipped _ _ _ active =>
    rw [Frame.isActive, h.tracked.idle hfun] at active
    cases active
  | body hopen =>
    rw [found] at hopen
    exact hopen.elim

/-- What a call of the name in the module has found before its arguments are
analyzed is what it goes by. -/
theorem Faithful.call_name {a t b e : State}
    (hn : Within module.body (.expr (.call site (.name callee name) args keywords)))
    (hfun : a.frame.function = none)
    (hfunc : visit config (enterBody config bound) (.expr (.name callee name)) a = .ok () t)
    (ht : Faithful module name t)
    (hargs : (argumentNodes args keywords).forM (visit config (enterBody config bound)) t
      = .ok () b) (hb : Faithful module name b) (hframe : b.frame = a.frame)
    (hd : Decision config (enterBody config bound) args keywords b (.name callee name) result e) :
    Faithful module name e ∧ ((∃ i, .defined SymbolTable.root name i ∈ e.trace) →
      ∃ d, inForce name e.trace = some d ∧ result = returnType (lastStmt d e.trace)) := by
  obtain ⟨type, hty, hfits, rfl⟩ := visit_name hfunc
  have he : Enters config module (enterBody config bound) := enterBody_steps config module bound
  have found : (a.act (.annotate callee.index type)).types.exprs.get? callee.index = type :=
    IndexTable.get?_put_self _ hfits
  have htfun : (a.act (.annotate callee.index type)).frame.function = none := hfun
  have ns_eq : a.frame.ns = .module := ht.tracked.framed.ns_eq htfun
  rw [ns_eq] at hty
  obtain ⟨owner, howner, -⟩ := Environment.typeOf_ok.1 hty
  cases Environment.owner_module howner
  have htype : type = a.env.types.get? (SymbolTable.root, name) := Calm.typeOf_eq hty
  have hbfun : b.frame.function = none := by rw [hframe, hfun]
  have howner' : b.env.owner b.frame.ns name = .ok (some SymbolTable.root) := by
    rw [hb.tracked.framed.ns_eq hbfun, ← howner]
    exact Environment.owner_congr (hb.tracked.framed.table.trans ht.tracked.framed.table.symm) _ _
  have here : b.Here module (.expr (.call site (.name callee name) args keywords)) :=
    (State.here_iff hbfun).2 hn
  obtain ⟨-, hexpr, hdefs, hforce⟩ :=
    arguments_undisturbed hm he hn htfun hargs ht.tracked.framed
  rcases ht.settled with ⟨hnone, hdefs'⟩ | ⟨d, returns, hd', hname, hforce', hfrozen⟩
  · refine hb.decide_open hm only hbfun here howner' ?_ ?_ hd
    · calc
        b.types.ofExpr? (.name callee name) = type := hexpr.trans found
        _ = lastBound name _ := htype.trans ht.tracked.bound
        _ = none := hnone
    · rw [hdefs, hdefs', hforce]
  · have looks : LooksUp module name callee :=
      ⟨b.frame, hb.tracked.framed.frame, hb.tracked.framed.placed.function,
        ⟨site, args, keywords, here⟩,
        (Environment.owner_congr hb.tracked.framed.table.symm _ _).trans howner'⟩
    -- The arguments may call the function too: this does not change what it returns.
    have freezes : Freezes module name d returns (a.act (.annotate callee.index type)) b := by
      refine (forM_chain (P := fun t => t.frame.function = none) Freezes.refl Freezes.trans ?_
        htfun hargs).1
      intro x hx t t' _ htx hr
      have within : Within module.body x :=
        hn.part rfl (Node.mem_children.1 (List.mem_cons_of_mem _ hx))
      have here : t.Here module x := (State.here_iff htx).2 within
      exact ⟨visit_freezes hm only hd' hname he (enterBody_freezes hm only hd' hname bound) here hr,
        (congrArg Frame.function (visit_steps he here hr).frame_eq).trans htx⟩
    obtain ⟨frozen, kept⟩ := freezes hfrozen
    exact hb.decide_signature hbfun (kept callee looks (found.trans (htype.trans hfrozen.signature)))
      frozen (hforce.trans hforce') hd

/-- **A run in the module decides calls of the name by the function in force.** -/
theorem visit_faithful {node : Node} {u : Unit} (hn : Within module.body node)
    (hfun : s.frame.function = none) (hr : visit config (enterBody config bound) node s = .ok u s')
    (h : Faithful module name s) : Faithful module name s' := by
  have body : s.frame.body module = module.body := by rw [Frame.body, hfun]
  refine (visit_relates (enterBody_steps config module bound) (Q := Within module.body)
    (R := fun a b => Faithful module name a → Faithful module name b) (fun _ h => h)
    (fun h h' ha => h' (h ha)) (fun hn => body ▸ hn)
    (fun hn hc => hn.part (mem_analyzed.1 hc).1 (mem_analyzed.1 hc).2) ?_ ?_ hn rfl hr).1 h
  · intro n a b hn hne ha hr h
    have here : a.Here module n := by rwa [State.Here, ha, body]
    exact h.acts hm only (conclude_acts here hne hr)
  · intro site func args keywords a t b c hn ha hfunc first ht hargs rest hb hr h
    obtain ⟨result, e, decision, fits, rfl⟩ := concludeCall_decision hr
    have here : b.Here module (.expr (.call site func args keywords)) := by
      rwa [State.Here, hb, body]
    have hbfun : b.frame.function = none := by rw [hb, hfun]
    have hfb := rest (first h)
    have cause : Cause config module e _ :=
      .called (here.of_frame decision.frame_eq) decision.outcome
    by_cases hcall : ∃ callee, func = .name callee name
    · obtain ⟨callee, rfl⟩ := hcall
      obtain ⟨he, decided⟩ := Faithful.call_name hm only hn (by rw [ha, hfun]) hfunc (first h) hargs
        hfb (hb.trans ha.symm) decision
      refine ⟨he.tracked.act hm cause fits, he.settled.act hm only he.tracked cause fits,
        he.judged.call hm hn fun _ _ => decided⟩
    · have he : Faithful module name e := by
        cases decision with
        | client | method | signature | unknown => exact hfb
        | skipped hd hns guard active =>
          exact hfb.acts hm only (.one (.skipped ⟨⟨_, _, _, here⟩, hd, hns⟩ guard active) rfl trivial)
        | body _ hd hns hfree hp hbody hfits =>
          refine (hfb.body hm only hbfun ⟨⟨_, _, _, here⟩, hd, hns⟩ hfree hp hbody hfits ?_).1
          rintro rfl
          exact absurd ⟨_, rfl⟩ hcall
      exact ⟨he.tracked.act hm cause fits, he.settled.act hm only he.tracked cause fits,
        he.judged.call hm hn fun callee hcallee => absurd ⟨callee, hcallee⟩ hcall⟩

/-- A run over the module decides calls of the name by the function in force. -/
theorem infer_faithful {state : State} (hi : Analysis.infer config module = .ok state) :
    Faithful module name state := by
  obtain ⟨u, hr⟩ := Analysis.infer_ok.1 hi
  change visitAll config _ module.body (Analysis.initial module) = _ at hr
  refine (forM_chain (R := fun a b => Faithful module name a → Faithful module name b)
    (P := fun t => t.frame.function = none) (fun _ h => h) (fun h h' ha => h' (h ha)) ?_ rfl
    hr).1 (.start module name)
  intro t ht a b _ ha hr
  have within : Within module.body (.stmt t) := .stmt ht
  have steps := visit_steps (enterBody_steps config module _) ((State.here_iff ha).2 within) hr
  exact ⟨visit_faithful hm only within ha hr, (congrArg Frame.function steps.frame_eq).trans ha⟩

end Run

/-- Of the definitions of a name that were visited, the last one is in force,
unless the name had a type by then. -/
theorem inForce_latest {i : Nat} {later earlier : List Event}
    (h : ∀ j, .defined SymbolTable.root name j ∉ later) :
    inForce name (later ++ .defined SymbolTable.root name i :: earlier)
      = if lastBound name earlier = none then some i else inForce name earlier := by
  induction later with
  | nil => simp [inForce]
  | cons event later ih =>
    have rest := ih fun j hj => h j (List.mem_cons_of_mem _ hj)
    cases event with
    | defined scope id j =>
      have other : ¬(scope = SymbolTable.root ∧ id = name ∧
          lastBound name (later ++ .defined SymbolTable.root name i :: earlier) = none) := by
        rintro ⟨rfl, rfl, -⟩
        exact h j List.mem_cons_self
      rw [List.cons_append, inForce, if_neg other, rest]
    | annotated | returned | credited | bound | called | entered | left | skipped => exact rest

end Inference

/-- The nodes of a parsed source are numbered, with calls of its entry points or
without. -/
theorem Analysis.parse_numbered {config : Config} {application : Bool} {source : Source}
    {module : Module} (hp : Analysis.parse config application source = .ok module) :
    module.Numbered := by
  obtain ⟨parsed, hparsed, rfl⟩ := Analysis.parse_ok.1 hp
  cases application with
  | true => exact (numbered_of_parse hparsed).invokeEntryPoints _
  | false => exact numbered_of_parse hparsed

/-- **A call goes by the definition in force.** Let only definitions give a name of
the module a value, and let one of them have been visited before a call of the
name in the module. Then the call has the type that was known, at that moment, to
be returned by one definition. It is the one that was visited last, if the name had
no type then. Else the name had the signature of an earlier one, which stays in
force. -/
theorem call_uses_definition_in_force {config : Config} {application : Bool} {source : Source}
    {module : Module} {state : State}
    (hp : Analysis.parse config application source = .ok module)
    (hi : Analysis.infer config module = .ok state) {name : String}
    (only : ∀ t, Within module.body (.stmt t) → t.gives name = false)
    {site callee : Site} {args : List Expr} {keywords : List (Keyword Expr)}
    (hcall : Within module.body (.expr (.call site (.name callee name) args keywords)))
    {type result : Option Ty} {before later earlier : List Event} {i : Nat}
    (hmoment : .called site.index type result :: before <:+ state.trace)
    (hbefore : before = later ++ .defined SymbolTable.root name i :: earlier)
    (hlatest : ∀ j, .defined SymbolTable.root name j ∉ later) :
    ∃ d, result = returnType (lastStmt d before) ∧ (lastBound name earlier = none → d = i) ∧
      (lastBound name earlier ≠ none → inForce name earlier = some d) := by
  have visited : ∃ i, .defined SymbolTable.root name i ∈ before := ⟨i, by simp [hbefore]⟩
  obtain ⟨d, hforce, hresult⟩ := (infer_faithful (Analysis.parse_numbered hp) only hi).judged
    hcall hmoment visited
  rw [hbefore, inForce_latest hlatest] at hforce
  refine ⟨d, hresult, fun hnone => ?_, fun hsome => ?_⟩
  · rw [if_pos hnone] at hforce
    exact (Option.some.inj hforce).symm
  · rwa [if_neg hsome] at hforce

/-- A function that is defined again, in a branch, after a call of the first one
that tells nothing. -/
def redefined : Source where
  file := "main.py"
  text := "import boto3\ndef f():\n    g()\nf()\nif f:\n    def f():\n"
    ++ "        return boto3.client('sqs')\nf().m()\n"

/-- A node that gives a name a value. -/
def Tree.Node.gives (name : String) : Node → Bool
  | .stmt t => t.gives name
  | .expr _ => false

/-- The call of a name, with a number. -/
def Tree.Node.callsName (name : String) (i : Nat) : Node → Bool
  | .expr (.call site (.name _ id) _ _) => id = name && site.index = i
  | _ => false

theorem exists_call_of_callsName {name : String} {i : Nat} {n : Node}
    (h : n.callsName name i = true) : ∃ site callee args keywords, site.index = i ∧
      n = .expr (.call site (.name callee name) args keywords) := by
  unfold Node.callsName at h
  split at h
  · next site callee id args keywords =>
    obtain ⟨rfl, hi⟩ : id = name ∧ site.index = i := by simpa using h
    exact ⟨site, callee, args, keywords, hi, rfl⟩
  · cases h

/-- In the run over `redefined`, the call in the last line has number 10, the second
definition has number 5, and these are the moments at which they are visited. -/
def redefinedMoments (trace : List Event) : Bool :=
  decide (.called 10 none (some (.serviceClient "sqs")) :: trace.drop 5 <:+ trace ∧
    trace.drop 5 = (trace.drop 5).take 10 ++ .defined SymbolTable.root "f" 5 :: trace.drop 16 ∧
    lastBound "f" (trace.drop 16) = none) &&
  ((trace.drop 5).take 10).all fun
    | .defined .. => false
    | _ => true

theorem redefined_uses_latest :
    ∃ module state before, Analysis.parse {} false redefined = .ok module ∧
      Analysis.infer {} module = .ok state ∧
      .called 10 none (some (.serviceClient "sqs")) :: before <:+ state.trace ∧
      some (.serviceClient "sqs") = returnType (lastStmt 5 before) := by
  have shape : (Analysis.parse {} false redefined).toOption.any (fun module =>
      ((stmtNodes module.body).flatMap Node.own).all (!·.gives "f") &&
      ((stmtNodes module.body).flatMap Node.own).any (·.callsName "f" 10) &&
      (Analysis.infer {} module).toOption.any (redefinedMoments ·.trace)) = true := by
    decide +kernel
  have parses : (Analysis.parse {} false redefined).isOk = true := by decide +kernel
  obtain ⟨module, hp⟩ := exists_ok parses
  simp only [hp, Except.toOption, Option.any_some, Bool.and_eq_true] at shape
  obtain ⟨⟨spared, called⟩, run⟩ := shape
  cases hi : Analysis.infer {} module with
  | error =>
    rw [hi] at run
    cases run
  | ok state =>
    simp only [hi, Option.any_some, redefinedMoments, Bool.and_eq_true, decide_eq_true_eq] at run
    obtain ⟨⟨hmoment, hbefore, hnone⟩, hlatest⟩ := run
    have only : ∀ t, Within module.body (.stmt t) → t.gives "f" = false := fun t ht => by
      simpa [Node.gives] using List.all_eq_true.1 spared _ ht.mem_own
    obtain ⟨n, hn, hcall⟩ := List.any_eq_true.1 called
    obtain ⟨site, callee, args, keywords, hsite, rfl⟩ := exists_call_of_callsName hcall
    rw [← hsite] at hmoment
    obtain ⟨d, hresult, hd, -⟩ := call_uses_definition_in_force hp hi only (within_iff.2 hn) hmoment
      hbefore fun j hj => by cases List.all_eq_true.1 hlatest _ hj
    cases hd hnone
    exact ⟨module, state, _, hp, hi, hsite ▸ hmoment, hresult⟩

/-- A function that is defined again after a call of the first one. -/
def redefinedAfterCall : Source where
  file := "main.py"
  text := "import boto3\ndef f():\n    return boto3.client('s3')\nf()\ndef f():\n"
    ++ "    return boto3.client('sqs')\nf().m()\n"

/-- **A definition that comes after a call of an earlier one may never be used.** -/
theorem redefinedAfterCall_uses_earlier :
    Reports {} false redefinedAfterCall "s3" "m" ∧
      ¬Reports {} false redefinedAfterCall "sqs" "m" := by
  decide +kernel

end SdkUsage
