/-
Entry points are analyzed. Behind the definition of an entry point stands a call of
it, so that a run over the application comes to the call with the function under its
name. There it goes into the body, unless the name has a type; and as long as no
other statement gives the name a value, it has a type only if a call went into the
body before.
-/
import SdkUsage.Proofs.Inference.Application
import SdkUsage.Proofs.Inference.Success

namespace SdkUsage

open SdkUsage.Tree SdkUsage.Inference

namespace EntryPoint

variable {route : String} {d : Function} {old new xs ys : List Node} {c c' : Counts}

/-! ## Where calls stand -/

/-- A function is called right behind its definition, among nodes or inside of
statements among them that open no scope. -/
inductive Invokes (d : Function) : List Node → Prop
  | here {before after} (c) :
    Invokes d (before ++ .stmt (.functionDef d) :: .stmt (callOf d c) :: after)
  | inside {before t after} : t.isCompound = true → (Node.stmt t).opensScope = false →
    Invokes d t.children → Invokes d (before ++ .stmt t :: after)

theorem Invokes.append_left (h : Invokes d ys) (xs : List Node) : Invokes d (xs ++ ys) := by
  cases h with
  | here c =>
    rw [← List.append_assoc]
    exact .here c
  | inside hc ho h =>
    rw [← List.append_assoc]
    exact .inside hc ho h

theorem Invokes.append_right (h : Invokes d xs) (ys : List Node) : Invokes d (xs ++ ys) := by
  cases h with
  | here c =>
    rw [List.append_assoc]
    exact .here c
  | inside hc ho h =>
    rw [List.append_assoc]
    exact .inside hc ho h

/-- **Entry points are called where they are defined,** wherever that is outside of
functions and classes. -/
theorem Extends.invokes (h : Extends route old new c c') (hd : d.isEntryPoint route = true)
    (ho : .stmt (.functionDef d) ∈ old.flatMap Node.own) : Invokes d new := by
  induction h with
  | refl _ uncalled => cases hd.symm.trans (uncalled d ho)
  | append _ _ ih ih' =>
    rw [List.flatMap_append] at ho
    rcases List.mem_append.1 ho with ho | ho
    · exact (ih ho).append_right _
    · exact (ih' ho).append_left _
  | @stmt t t' _ _ hk _ ih =>
    have other : Node.stmt (.functionDef d) ≠ .stmt t := by
      intro heq
      cases (congrArg Stmt.isCompound (Node.stmt.inj heq)).trans hk.compound
    rw [List.flatMap_singleton] at ho
    cases hs : (Node.stmt t).opensScope with
    | true =>
      rw [Node.own_of_opensScope hs, List.mem_singleton] at ho
      exact absurd ho other
    | false =>
      rw [Node.own_of_not_opensScope hs, List.mem_cons] at ho
      have inner := ih (ho.resolve_left other)
      exact @Invokes.inside d [] t' [] hk.compound' (hk.opensScope.trans hs) inner
  | call c _ =>
    rw [List.flatMap_singleton, Node.own_of_opensScope rfl, List.mem_singleton] at ho
    cases ho
    exact @Invokes.here d [] [] c

/-- A statement of an application is compound, or it is a call of an entry point, or
it stands in the module as well. -/
theorem Extends.stmt_cases (h : Extends route old new c c') {t : Stmt}
    (ht : .stmt t ∈ new.flatMap Node.own) :
    t.isCompound = true ∨ (∃ d c, t = callOf d c) ∨ .stmt t ∈ old.flatMap Node.own := by
  induction h with
  | refl => exact .inr (.inr ht)
  | append _ _ ih ih' =>
    rw [List.flatMap_append] at ht ⊢
    rcases List.mem_append.1 ht with ht | ht
    · exact (ih ht).imp_right (.imp_right (List.mem_append_left _))
    · exact (ih' ht).imp_right (.imp_right (List.mem_append_right _))
  | @stmt t₁ t₁' _ _ hk _ ih =>
    rw [List.flatMap_singleton] at ht ⊢
    cases hs : (Node.stmt t₁).opensScope with
    | true =>
      rw [Node.own_of_opensScope (hk.opensScope.trans hs), List.mem_singleton] at ht
      cases ht
      exact .inl hk.compound'
    | false =>
      rw [Node.own_of_not_opensScope (hk.opensScope.trans hs), List.mem_cons] at ht
      rw [Node.own_of_not_opensScope hs]
      rcases ht with ht | ht
      · cases ht
        exact .inl hk.compound'
      · exact (ih ht).imp_right (.imp_right (List.mem_cons_of_mem _))
  | @call d c _ =>
    rw [List.flatMap_cons, List.flatMap_singleton] at ht
    rcases List.mem_append.1 ht with ht | ht
    · rw [List.flatMap_singleton]
      exact .inr (.inr ht)
    · rw [Node.own_of_not_opensScope rfl, List.mem_cons] at ht
      rcases ht with ht | ht
      · cases ht
        exact .inr (.inl ⟨d, c, rfl⟩)
      · exact absurd ht (not_mem_own_exprNodes t [_])

end EntryPoint

theorem Tree.Module.extends_invokeEntryPoints (route : String) (module : Module) :
    ∃ c c', EntryPoint.Extends route (stmtNodes module.body)
      (stmtNodes (module.invokeEntryPoints route).body) c c' :=
  ⟨_, _, EntryPoint.ofStmts_extends route module.body ⟨module.expressions, module.statements⟩⟩

namespace Inference

variable {config : Config} {module : Module} {d : Function} {s s' : State}

/-! ## Bodies that have been analyzed -/

theorem Steps.trace_suffix (h : Steps config module s s') : s.trace <:+ s'.trace := by
  refine h.keeps (P := fun t => s.trace <:+ t.trace) ?_ ?_ ?_ List.suffix_rfl
  · intro t action ht _ _
    exact ht.trans (List.suffix_append _ _)
  · intro t name args d ns ht _ _
    exact ht.trans (List.suffix_cons _ _)
  · intro t t' name args d ns _ _ ht' _ _
    exact (ht'.trans (List.suffix_cons _ _)).trans (List.suffix_append _ _)

/-- The trace of a run shows that the body of a function was analyzed, all of it and in
the function's own namespace. -/
def Walked (config : Config) (module : Module) (d : Function) (trace : List Event) : Prop :=
  ∃ bound s s', s.frame.function = some d ∧ s.frame.ns.Of module d ∧
    s.trace.head? = some (.entered d.site.index s.frame.ns.scope s.frame.stack) ∧
    visitAll config (enterBody config bound) d.body s = .ok () s' ∧ s'.trace <:+ trace

theorem Walked.of_suffix {trace trace' : List Event} (h : Walked config module d trace)
    (ht : trace <:+ trace') : Walked config module d trace' := by
  obtain ⟨bound, s, s', hf, hns, hhead, hr, hs⟩ := h
  exact ⟨bound, s, s', hf, hns, hhead, hr, hs.trans ht⟩

/-- A body that a call goes into has been analyzed. -/
theorem walked_of_body {bound : Nat} {ns : Namespace} {s₂ : State} (hns : ns.Of module d)
    (hb : enterBody config bound d (s.entered ns d) = .ok () s₂) :
    Walked config module d s₂.trace := by
  cases bound with
  | zero => cases hb
  | succ bound => exact ⟨bound, s.entered ns d, s₂, rfl, hns, rfl, hb, List.suffix_rfl⟩

/-! ## The name of an entry point -/

/-- If the name of a function has a type then the function has been analyzed. -/
structure Heeded (config : Config) (module : Module) (d : Function) (s : State) : Prop where
  tracked : s.Tracked module d.name.text
  walked : s.env.types.get? (SymbolTable.root, d.name.text) ≠ none →
    Walked config module d s.trace

theorem Heeded.start (config : Config) (module : Module) (d : Function) :
    Heeded config module d (Analysis.initial module) :=
  ⟨.start module d.name.text, fun h => absurd rfl h⟩

section Name

variable (hm : module.Numbered)
  (only : ∀ t, Within module.body (.stmt t) → t.gives d.name.text = false)
  (unique : ∀ g, Within module.body (.stmt (.functionDef g)) → g.name.text = d.name.text → g = d)

include hm only

theorem Heeded.act (h : Heeded config module d s) {action : Action}
    (hc : Cause config module s action) (hf : action.Fits s) :
    Heeded config module d (s.act action) := by
  refine ⟨h.tracked.act hm hc hf, fun htype => ?_⟩
  rw [hc.root_kept hm only h.tracked.framed] at htype
  exact (h.walked htype).of_suffix (List.suffix_append _ _)

include unique

omit only in
/-- A function that is called in the module. If it goes by the name it is the
function. -/
theorem Heeded.body {bound : Nat} (h : Heeded config module d s)
    (hfun : s.frame.function = none) {id : String} {args : List Expr} {g : Function}
    {ns : Namespace} {s₁ s₂ : State} (hc : s.Calls module id args g ns)
    (hfree : Free config s g) (hp : passArguments ns args g.params.args s = .ok () s₁)
    (hb : enterBody config bound g (s₁.entered ns g) = .ok () s₂)
    (hf : (s₂.signature s.frame id g).Fits s₂) :
    Heeded config module d (s₂.resumed s.frame id g) ∧
      (id = d.name.text → Walked config module d (s₂.resumed s.frame id g).trace) := by
  have ns_eq := h.tracked.framed.ns_eq hfun
  obtain ⟨run, apart⟩ :=
    body_apart hm (enterBody_steps config module bound) h.tracked.framed hc hfree hp hb
  obtain ⟨acts, calls, -⟩ : Acts config module s s₁ ∧ _ := passArguments_acts hc hfree hp
  have inner := run.tracked hm ((acts.steps.tracked hm h.tracked).enter hm calls)
  have suffix : s₂.trace <:+ (s₂.resumed s.frame id g).trace :=
    (List.suffix_cons _ _).trans (List.suffix_append _ _)
  have walked : id = d.name.text → Walked config module d (s₂.resumed s.frame id g).trace := by
    intro hid
    obtain ⟨owner, howner, hg⟩ := Environment.definition_ok.1 hc.found
    rw [ns_eq] at howner
    cases Environment.owner_module howner
    obtain ⟨hname, hwithin⟩ := h.tracked.owned hg
    cases unique g (hwithin.2 rfl) (hname.trans hid)
    exact (walked_of_body (h.tracked.framed.of_calls hm hc) hb).of_suffix suffix
  refine ⟨⟨h.tracked.resume inner hf, fun htype => ?_⟩, walked⟩
  have type : (s₂.resumed s.frame id g).env.types.get? (SymbolTable.root, d.name.text)
      = if d.name.text = id then s₂.types.stmts.get? g.site.index
        else s₂.env.types.get? (SymbolTable.root, d.name.text) := by
    show ((Action.bind s.frame.ns.scope id _).onEnv s₂.env).types.get? _ = _
    rw [Action.get?_bind, ns_eq]
    simp [Namespace.module]
  by_cases hid : id = d.name.text
  · exact walked hid
  · rw [type, if_neg (Ne.symm hid), (apart.env d.name.text).1] at htype
    obtain ⟨events, htrace, -⟩ := apart.trace
    exact (h.walked htype).of_suffix ((htrace ▸ List.suffix_append events s.trace).trans suffix)

/-- However a call in the module is decided. -/
theorem Heeded.decide {bound : Nat} {site : Site} {func : Expr} {args : List Expr}
    {keywords : List (Keyword Expr)} {result : Option Ty} (h : Heeded config module d s)
    (hfun : s.frame.function = none)
    (hn : Within module.body (.expr (.call site func args keywords)))
    (hd : Decision config (enterBody config bound) args keywords s func result s') :
    Heeded config module d s' := by
  have here : s.Here module (.expr (.call site func args keywords)) := (State.here_iff hfun).2 hn
  cases hd with
  | client | method | signature | unknown => exact h
  | skipped hd hns guard active =>
    exact h.act hm only (.skipped ⟨⟨_, _, _, here⟩, hd, hns⟩ guard active) trivial
  | body _ hd hns hfree hp hb hf =>
    exact (h.body hm unique hfun ⟨⟨_, _, _, here⟩, hd, hns⟩ hfree hp hb hf).1

/-- **A run in the module gives the name a type only by analyzing the function.** -/
theorem visit_heeded {bound : Nat} {node : Node} {u : Unit} (hn : Within module.body node)
    (hfun : s.frame.function = none)
    (hr : visit config (enterBody config bound) node s = .ok u s') (h : Heeded config module d s) :
    Heeded config module d s' := by
  have body : s.frame.body module = module.body := by rw [Frame.body, hfun]
  refine (visit_relates (enterBody_steps config module bound) (Q := Within module.body)
    (R := fun a b => Heeded config module d a → Heeded config module d b) (fun _ h => h)
    (fun h h' ha => h' (h ha)) (fun hn => body ▸ hn)
    (fun hn hc => hn.part (mem_analyzed.1 hc).1 (mem_analyzed.1 hc).2) ?_ ?_ hn rfl hr).1 h
  · intro n a b hn hne ha hr h
    have here : a.Here module n := by rwa [State.Here, ha, body]
    exact (conclude_acts here hne hr).keeps (fun h hc _ hf => h.act hm only hc hf) h
  · intro site func args keywords a t b c hn ha hfunc first ht hargs rest hb hr h
    obtain ⟨result, e, decision, fits, rfl⟩ := concludeCall_decision hr
    have here : b.Here module (.expr (.call site func args keywords)) := by
      rwa [State.Here, hb, body]
    have decided := (rest (first h)).decide hm only unique (by rw [hb, hfun]) hn decision
    exact decided.act hm only (.called (here.of_frame decision.frame_eq) decision.outcome) fits

/-- The same for nodes one after another. -/
theorem forM_heeded {bound : Nat} {nodes : List Node} {u : Unit}
    (hw : ∀ n ∈ nodes, Within module.body n) (hfun : s.frame.function = none)
    (hr : nodes.forM (visit config (enterBody config bound)) s = .ok u s') :
    (Steps config module s s' ∧ (Heeded config module d s → Heeded config module d s')) ∧
      s'.frame.function = none := by
  refine forM_chain (R := fun a b => Steps config module a b ∧
    (Heeded config module d a → Heeded config module d b)) (P := fun t => t.frame.function = none)
    (fun a => ⟨.refl a, fun h => h⟩) (fun h h' => ⟨h.1.trans h'.1, fun ha => h'.2 (h.2 ha)⟩) ?_
    hfun hr
  intro n hn a b _ ha hr
  have steps := visit_steps (enterBody_steps config module bound)
    ((State.here_iff ha).2 (hw n hn)) hr
  exact ⟨⟨steps, visit_heeded hm only unique (hw n hn) ha hr⟩,
    (congrArg Frame.function steps.frame_eq).trans ha⟩

/-! ## The call of an entry point -/

/-- Where the function is defined, its call finds it analyzed or analyzes it. -/
theorem callOf_walked {bound : Nat} {c : EntryPoint.Counts} {u : Unit}
    (hc : Within module.body (.stmt (EntryPoint.callOf d c))) (hfun : s.frame.function = none)
    (h : Heeded config module d s)
    (defined : s.env.definitions.get? (SymbolTable.root, d.name.text) = some d)
    (hr : visit config (enterBody config bound) (.stmt (EntryPoint.callOf d c)) s = .ok u s') :
    Walked config module d s'.trace := by
  have steps := visit_steps (enterBody_steps config module bound) ((State.here_iff hfun).2 hc) hr
  obtain ⟨type, callee, result, s₁, s₂, htype, hfits, rfl, decision, rfl⟩ := visit_callOf hr
  have ns_eq := h.tracked.framed.ns_eq hfun
  rw [ns_eq] at htype
  cases htyped : s.env.types.get? (SymbolTable.root, d.name.text) with
  | some found =>
    exact (h.walked (by rw [htyped]; rintro ⟨⟩)).of_suffix steps.trace_suffix
  | none =>
    have untyped : type = none := (Calm.typeOf_eq htype).trans htyped
    subst untyped
    have callWithin : Within module.body (.expr (.call ⟨d.name.span, c.expressions + 1⟩
        (.name ⟨d.name.span, c.expressions⟩ d.name.text) [] [])) :=
      hc.part rfl (Node.mem_children.1 List.mem_cons_self)
    have nameWithin : Within module.body
        (.expr (.name ⟨d.name.span, c.expressions⟩ d.name.text)) :=
      callWithin.part rfl (Node.mem_children.1 List.mem_cons_self)
    let t := s.act (.annotate c.expressions none)
    have named : Heeded config module d t :=
      h.act hm only (.name ((State.here_iff hfun).2 nameWithin) (by rwa [ns_eq])) hfits
    have nothing : t.types.ofExpr? (.name ⟨d.name.span, c.expressions⟩ d.name.text) = none :=
      IndexTable.get?_put_self _ hfits
    have definition : t.env.definition t.frame.ns d.name.text = .ok d := by
      obtain ⟨owner, howner, -⟩ := Environment.typeOf_ok.1 htype
      cases Environment.owner_module howner
      exact Environment.definition_ok.2 ⟨_, by rw [← howner, ← ns_eq]; rfl, defined⟩
    have here : t.Here module (.expr (.call ⟨d.name.span, c.expressions + 1⟩
        (.name ⟨d.name.span, c.expressions⟩ d.name.text) [] [])) :=
      (State.here_iff hfun).2 callWithin
    cases decision with
    | client hc => cases nothing.symm.trans hc
    | method hc => cases nothing.symm.trans hc
    | signature hc => cases nothing.symm.trans hc
    | unknown _ hdefines =>
      have undefined := hdefines _ _ rfl
      rw [Environment.defines, definition] at undefined
      cases undefined
    | skipped _ _ _ active =>
      rw [Frame.isActive, named.tracked.idle hfun] at active
      cases active
    | body _ hd hns hfree hp hb hf =>
      exact ((named.body hm unique hfun ⟨⟨_, _, _, here⟩, hd, hns⟩ hfree hp hb hf).2
        rfl).of_suffix (List.suffix_append _ _)

/-- **A run that comes to a function with its call analyzes the function.** -/
theorem invokes_walked {bound : Nat} {nodes : List Node} {u : Unit}
    (hi : EntryPoint.Invokes d nodes) (hw : ∀ n ∈ nodes, Within module.body n)
    (hfun : s.frame.function = none) (h : Heeded config module d s)
    (hr : nodes.forM (visit config (enterBody config bound)) s = .ok u s') :
    Walked config module d s'.trace := by
  induction hi generalizing s s' u with
  | @here before after c =>
    rw [List.forM_eq_forM, List.forM_append] at hr
    obtain ⟨_, a, hbefore, hr⟩ := bind_ok.1 hr
    obtain ⟨_, b, hdef, hr⟩ := bind_ok.1 hr
    obtain ⟨_, e, hcall, hafter⟩ := bind_ok.1 hr
    obtain ⟨⟨-, before_heeded⟩, hafun⟩ := forM_heeded hm only unique
      (fun n hn => hw n (List.mem_append_left _ hn)) hfun hbefore
    have ha := before_heeded h
    have defWithin : Within module.body (.stmt (.functionDef d)) := hw _ (by simp)
    have hb := visit_heeded hm only unique defWithin hafun hdef ha
    obtain ⟨hdefines, rfl⟩ : _ ∧ b = a.act (.define a.frame.ns.scope d.name.text d) := by
      rw [visit_eq] at hdef
      obtain ⟨_, _, hparts, hdef⟩ := bind_ok.1 hdef
      obtain ⟨-, rfl⟩ := pure_ok.1 hparts
      exact define_ok.1 hdef
    have callWithin : Within module.body (.stmt (EntryPoint.callOf d c)) := hw _ (by simp)
    have defined : (a.act (.define a.frame.ns.scope d.name.text d)).env.definitions.get?
        (SymbolTable.root, d.name.text) = some d := by
      rw [State.act_env, Action.get?_define, ha.tracked.framed.ns_eq hafun]
      exact if_pos rfl
    have hbfun : (a.act (.define a.frame.ns.scope d.name.text d)).frame.function = none := hafun
    have walked := callOf_walked hm only unique callWithin hbfun hb defined hcall
    have called := visit_steps (enterBody_steps config module bound)
      ((State.here_iff hbfun).2 callWithin) hcall
    obtain ⟨⟨rest, -⟩, -⟩ := forM_heeded (d := d) hm only unique (fun n hn => hw n (by simp [hn]))
      ((congrArg Frame.function called.frame_eq).trans hbfun) hafter
    exact walked.of_suffix rest.trace_suffix
  | @inside before t after hc ho _ ih =>
    rw [List.forM_eq_forM, List.forM_append] at hr
    obtain ⟨_, a, hbefore, hr⟩ := bind_ok.1 hr
    obtain ⟨_, b, hstmt, hafter⟩ := bind_ok.1 hr
    obtain ⟨⟨-, before_heeded⟩, hafun⟩ := forM_heeded hm only unique
      (fun n hn => hw n (List.mem_append_left _ hn)) hfun hbefore
    have within : Within module.body (.stmt t) := hw _ (by simp)
    have steps := visit_steps (enterBody_steps config module bound)
      ((State.here_iff hafun).2 within) hstmt
    rw [visit_compound hc, ho] at hstmt
    have walked := ih (fun n hn => within.part ho (Node.mem_children.1 hn)) hafun
      (before_heeded h) hstmt
    obtain ⟨⟨rest, -⟩, -⟩ := forM_heeded (d := d) hm only unique (fun n hn => hw n (by simp [hn]))
      ((congrArg Frame.function steps.frame_eq).trans hafun) hafter
    exact walked.of_suffix rest.trace_suffix

end Name

end Inference

/-- **Entry points are analyzed.** Let a function be an entry point that stands outside
of functions and classes, and let nothing else give its name a value there: no
assignment or import, and no other function. Then the run over the application
succeeds and analyzes the body of the function in the function's own namespace. -/
theorem entry_point_walked {config : Config} {source : Source} {module : Module}
    (hp : parse source = .ok module) (hguard : config.recursionGuard = true)
    (hfactory : config.clientFactory ≠ "*") {d : Function}
    (hd : Within module.body (.stmt (.functionDef d)))
    (entry : d.isEntryPoint config.routeMethod = true)
    (only : ∀ t, Within module.body (.stmt t) → t.gives d.name.text = false)
    (unique : ∀ g, Within module.body (.stmt (.functionDef g)) → g.name.text = d.name.text →
      g = d) :
    ∃ state, Analysis.infer config (module.invokeEntryPoints config.routeMethod) = .ok state ∧
      Walked config (module.invokeEntryPoints config.routeMethod) d state.trace := by
  have numbered := (numbered_of_parse hp).invokeEntryPoints config.routeMethod
  obtain ⟨state, hi⟩ := infer_succeeds numbered hguard hfactory
  refine ⟨state, hi, ?_⟩
  obtain ⟨c, c', extended⟩ := module.extends_invokeEntryPoints config.routeMethod
  generalize module.invokeEntryPoints config.routeMethod = program at *
  have only' : ∀ t, Within program.body (.stmt t) → t.gives d.name.text = false := by
    intro t ht
    rcases extended.stmt_cases (within_iff.1 ht) with hc | ⟨_, _, rfl⟩ | ho
    · cases t with
      | branch | whileLoop | forLoop | withBlock | tryBlock | classDef => rfl
      | _ => cases hc
    · rfl
    · exact only t (within_iff.2 ho)
  have unique' : ∀ g, Within program.body (.stmt (.functionDef g)) →
      g.name.text = d.name.text → g = d := by
    intro g hg
    rcases extended.stmt_cases (within_iff.1 hg) with hc | ⟨_, _, hcall⟩ | ho
    · cases hc
    · cases hcall
    · exact unique g (within_iff.2 ho)
  obtain ⟨_, hr⟩ := Analysis.infer_ok.1 hi
  change visitAll config _ program.body (Analysis.initial program) = _ at hr
  rw [visitAll_eq] at hr
  refine invokes_walked numbered only' unique' (extended.invokes entry (within_iff.1 hd)) ?_ rfl
    (.start config program d) hr
  intro n hn
  obtain ⟨t, ht, rfl⟩ := mem_stmtNodes.1 hn
  exact .stmt ht

/-- A handler in a branch of a `try` statement. -/
def nestedHandler : Source where
  file := "main.py"
  text := "import boto3\ntry:\n    if boto3:\n        @app.route('/')\n        def index(c=0):\n"
    ++ "            boto3.client('s3').m()\n    index\nexcept E:\n    pass\n"

/-- An entry point with a name and a number. -/
def Tree.Node.handles (route name : String) (i : Nat) : Node → Bool
  | .stmt (.functionDef d) => d.isEntryPoint route && d.name.text = name && d.site.index = i
  | _ => false

/-- A node that defines no function of a name, unless with a number. -/
def Tree.Node.definesOnly (name : String) (i : Nat) : Node → Bool
  | .stmt (.functionDef d) => d.name.text ≠ name || d.site.index = i
  | _ => true

theorem nestedHandler_walked :
    ∃ module d state, parse nestedHandler = .ok module ∧ d.name.text = "index" ∧
      Within module.body (.stmt (.functionDef d)) ∧
      Analysis.infer {} (module.invokeEntryPoints "route") = .ok state ∧
      Walked {} (module.invokeEntryPoints "route") d state.trace := by
  have shape : (parse nestedHandler).toOption.any (fun module =>
      ((stmtNodes module.body).flatMap Node.own).all
        (fun n => !n.gives "index" && n.definesOnly "index" 2) &&
      ((stmtNodes module.body).flatMap Node.own).any (·.handles "route" "index" 2)) = true := by
    decide +kernel
  have parses : (parse nestedHandler).isOk = true := by decide +kernel
  obtain ⟨module, hp⟩ := exists_ok parses
  simp only [hp, Except.toOption, Option.any_some, Bool.and_eq_true] at shape
  obtain ⟨spared, handled⟩ := shape
  obtain ⟨n, hn, handles⟩ := List.any_eq_true.1 handled
  unfold Node.handles at handles
  split at handles
  · next d =>
    obtain ⟨⟨entry, name⟩, index⟩ : (_ ∧ d.name.text = "index") ∧ d.site.index = 2 := by
      simpa using handles
    have within : Within module.body (.stmt (.functionDef d)) := within_iff.2 hn
    have only : ∀ t, Within module.body (.stmt t) → t.gives d.name.text = false := by
      intro t ht
      have spares := List.all_eq_true.1 spared _ ht.mem_own
      rw [Bool.and_eq_true] at spares
      simpa [Node.gives, name] using spares.1
    have unique : ∀ g, Within module.body (.stmt (.functionDef g)) →
        g.name.text = d.name.text → g = d := by
      intro g hg hname
      have defines := (Bool.and_eq_true _ _ ▸ List.all_eq_true.1 spared _ hg.mem_own).2
      have hi : g.site.index = 2 := by
        simpa [Node.definesOnly, hname, name] using defines
      cases (numbered_of_parse hp).stmt_eq hg.mem_nodes within.mem_nodes (hi.trans index.symm)
      rfl
    have guard : ({} : Config).recursionGuard = true := rfl
    have factory : ({} : Config).clientFactory ≠ "*" := by decide
    obtain ⟨state, hi, walked⟩ := entry_point_walked hp guard factory within entry only unique
    exact ⟨module, d, state, hp, name, within, hi, walked⟩
  · cases handles

end SdkUsage
