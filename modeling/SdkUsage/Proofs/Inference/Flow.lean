/-
The order in which things happen. `Steps` forgets it: of a call it says only that
a function under the name is entered, not that the name was looked up before and
the arguments were analyzed in between.

`Decision` says in which ways a call is decided, and `visit_relates` is an
induction over the analysis of a node that keeps the order. What holds between
the states around each node that is concluded holds between the states around
the whole; at a call it may be used that the callee came first and the arguments
next.
-/
import SdkUsage.Proofs.Inference.Reach
import SdkUsage.Proofs.Inference.Frame

namespace SdkUsage.Inference

open SdkUsage.Tree

variable {config : Config} {module : Module} {enter : Function → Run Unit} {s s' : State} {u : Unit}

/-! ## How calls are decided -/

/-- How a call is decided, with the type it is given and the state after that. -/
inductive Decision (config : Config) (enter : Function → Run Unit) (args : List Expr)
    (keywords : List (Keyword Expr)) (s : State) : Expr → Option Ty → State → Prop
  | client {func} : s.types.ofExpr? func = some .clientFactory →
    Decision config enter args keywords s func (clientType s.types args keywords) s
  | method {func service method} : s.types.ofExpr? func = some (.methodRef service method) →
    Decision config enter args keywords s func (some (.invocation service method)) s
  | signature {func returns} : s.types.ofExpr? func = some (.function returns) →
    Decision config enter args keywords s func (some returns) s
  | unknown {func} : Undecided (s.types.ofExpr? func) →
    (∀ site name, func = .name site name → s.env.defines s.frame.ns name = false) →
    Decision config enter args keywords s func none s
  | skipped {site name d ns} : s.env.definition s.frame.ns name = .ok d →
    s.env.definitionNamespace s.frame.ns d = .ok ns → config.recursionGuard = true →
    s.frame.isActive d = true →
    Decision config enter args keywords s (.name site name) none (s.act (.skip d.site.index))
  | body {site name d ns s₁ s₂} : Undecided (s.types.ofExpr? (.name site name)) →
    s.env.definition s.frame.ns name = .ok d →
    s.env.definitionNamespace s.frame.ns d = .ok ns → Free config s d →
    passArguments ns args d.params.args s = .ok () s₁ →
    enter d (s₁.entered ns d) = .ok () s₂ → (s₂.signature s.frame name d).Fits s₂ →
    Decision config enter args keywords s (.name site name)
      (returnType (s₂.types.stmts.get? d.site.index)) (s₂.resumed s.frame name d)

theorem undecided_of {callee : Option Ty} (hclient : callee = some .clientFactory → False)
    (hmethod : ∀ service method, callee = some (.methodRef service method) → False)
    (hfunction : ∀ returns, callee = some (.function returns) → False) : Undecided callee := by
  unfold Undecided
  split
  · exact hclient rfl
  · exact hmethod _ _ rfl
  · exact hfunction _ rfl
  · trivial

theorem callFunction_decision {site : Site} {name : String} {args : List Expr}
    {keywords : List (Keyword Expr)} {result : Option Ty}
    (hopen : Undecided (s.types.ofExpr? (.name site name)))
    (hr : callFunction config enter name args s = .ok result s') :
    Decision config enter args keywords s (.name site name) result s' := by
  simp only [callFunction, bind_ok, ask_ok, get_ok] at hr
  obtain ⟨d, _, ⟨hd, rfl⟩, ns, _, ⟨hns, rfl⟩, _, _, ⟨rfl, rfl⟩, hr⟩ := hr
  split at hr
  · next hg =>
    rw [Bool.and_eq_true] at hg
    simp only [bind_ok, note_ok, pure_ok] at hr
    obtain ⟨_, _, rfl, rfl, rfl⟩ := hr
    exact .skipped hd hns hg.1 hg.2
  · next hg =>
    simp only [bind_ok, inside_ok, get_ok, bindName_ok, pure_ok] at hr
    obtain ⟨_, s₁, hp, _, _, ⟨s₂, hb, rfl⟩, _, _, ⟨rfl, rfl⟩, _, _, ⟨hf, rfl⟩, rfl, rfl⟩ := hr
    have frame := passArguments_frame hp
    change Decision _ _ _ _ _ _ _ (s₂.resumed s₁.frame name d)
    rw [frame]
    exact .body hopen hd hns (Bool.eq_false_iff.2 hg) hp hb (frame ▸ hf)

theorem callType_decision {func : Expr} {args : List Expr} {keywords : List (Keyword Expr)}
    {result : Option Ty} (hr : callType config enter func args keywords s = .ok result s') :
    Decision config enter args keywords s func result s' := by
  simp only [callType, bind_ok, get_ok] at hr
  obtain ⟨_, _, ⟨rfl, rfl⟩, hr⟩ := hr
  generalize hc : s.types.ofExpr? func = callee at hr
  split at hr
  · obtain ⟨rfl, rfl⟩ := pure_ok.1 hr
    exact .client hc
  · obtain ⟨rfl, rfl⟩ := pure_ok.1 hr
    exact .method hc
  · obtain ⟨rfl, rfl⟩ := pure_ok.1 hr
    exact .signature hc
  · next site name hclient hmethod hfunction =>
    have hopen := undecided_of hclient hmethod hfunction
    rw [← hc] at hopen
    split at hr
    · exact callFunction_decision hopen hr
    · next hdefines =>
      obtain ⟨rfl, rfl⟩ := pure_ok.1 hr
      refine .unknown hopen fun site name hname => ?_
      cases hname
      exact Bool.eq_false_iff.2 hdefines
  · next hclient hmethod hfunction hname =>
    obtain ⟨rfl, rfl⟩ := pure_ok.1 hr
    have hopen := undecided_of hclient hmethod hfunction
    rw [← hc] at hopen
    exact .unknown hopen fun site name h => (hname site name h).elim

theorem Decision.frame_eq {func : Expr} {args : List Expr} {keywords : List (Keyword Expr)}
    {result : Option Ty} (h : Decision config enter args keywords s func result s') :
    s'.frame = s.frame := by
  cases h <;> rfl

/-- What is decided is one of the outcomes that a call can have. -/
theorem Decision.outcome {func : Expr} {args : List Expr} {keywords : List (Keyword Expr)}
    {result : Option Ty} (h : Decision config enter args keywords s func result s') :
    Outcome s' args keywords func (s.types.ofExpr? func) result := by
  cases h with
  | client hc => exact hc ▸ .client hc
  | method hc => exact hc ▸ .method hc
  | signature hc => exact hc ▸ .signature hc
  | unknown => exact .nothing
  | skipped => exact .nothing
  | @body site name d ns s₁ s₂ =>
    rw [← State.resumed_types s₂ s.frame name d]
    exact .body

/-- A call takes the type that is decided. -/
theorem concludeCall_decision {site : Site} {func : Expr} {args : List Expr}
    {keywords : List (Keyword Expr)}
    (hr : concludeExpr config enter (.call site func args keywords) s = .ok u s') :
    ∃ result s₁, Decision config enter args keywords s func result s₁ ∧
      (Action.call site.index (s.types.ofExpr? func) result).Fits s₁ ∧
      s' = s₁.act (.call site.index (s.types.ofExpr? func) result) := by
  simp only [concludeExpr, bind_ok, exprType_ok, note_ok] at hr
  obtain ⟨_, _, ⟨rfl, rfl⟩, result, s₁, hc, _, _, rfl, hr⟩ := hr
  refine ⟨result, s₁, callType_decision hc, ?_⟩
  cases result with
  | none =>
    obtain ⟨-, rfl⟩ := pure_ok.1 hr
    exact ⟨trivial, rfl⟩
  | some type =>
    obtain ⟨hf, rfl⟩ := (annotate_does _ _).1 hr
    exact ⟨hf, rfl⟩

/-- An expression that is no call may be given a type, and nothing else happens. -/
theorem concludeExpr_other {e : Expr} (hn : s.Here module (.expr e))
    (hne : ∀ site func args keywords, e ≠ .call site func args keywords)
    (hr : concludeExpr config enter e s = .ok u s') :
    s' = s ∨ ∃ type, Cause config module s (.annotate e.index type) ∧
      (Action.annotate e.index type).Fits s ∧ s' = s.act (.annotate e.index type) := by
  unfold concludeExpr at hr
  split at hr
  · next site id =>
    simp only [bind_ok, ask_ok] at hr
    obtain ⟨type, _, ⟨ht, rfl⟩, hr⟩ := hr
    exact .inr ⟨type, .name hn ht, (annotate_does _ _).1 hr⟩
  · next site value attr =>
    simp only [bind_ok, exprType_ok] at hr
    obtain ⟨_, _, ⟨rfl, rfl⟩, hr⟩ := hr
    cases ht : memberType config attr.text (s.types.ofExpr? value) with
    | none =>
      rw [ht] at hr
      exact .inl (pure_ok.1 hr).2.symm
    | some type =>
      rw [ht] at hr
      exact .inr ⟨some type, .member hn ht, (annotate_does _ _).1 hr⟩
  · exact absurd rfl (hne _ _ _ _)
  · exact .inl (pure_ok.1 hr).2.symm

/-- Apart from calls, a node is concluded by actions. -/
theorem conclude_acts {node : Node} (hn : s.Here module node)
    (hne : ∀ site func args keywords, node ≠ .expr (.call site func args keywords))
    (hr : conclude config enter node s = .ok u s') : Acts config module s s' := by
  cases node with
  | stmt t => exact concludeStmt_acts hn hr
  | expr e =>
    have hne' : ∀ site func args keywords, e ≠ .call site func args keywords :=
      fun site func args keywords h => hne site func args keywords (congrArg Node.expr h)
    rcases concludeExpr_other hn hne' hr with rfl | ⟨type, hc, hf, rfl⟩
    · exact .refl _
    · exact .one hc rfl hf

/-! ## Induction over an analysis -/

theorem visit_eq (node : Node) :
    visit config enter node = (do
      node.analyzed.forM (visit config enter)
      conclude config enter node) := by
  rw [visit, forM_eq_forEach]

/-- A name takes the type that is known for it. -/
theorem visit_name {site : Site} {name : String}
    (hr : visit config enter (.expr (.name site name)) s = .ok u s') :
    ∃ type, s.env.typeOf s.frame.ns name = .ok type ∧
      (Action.annotate site.index type).Fits s ∧ s' = s.act (.annotate site.index type) := by
  rw [visit_eq] at hr
  obtain ⟨_, _, hparts, hr⟩ := bind_ok.1 hr
  obtain ⟨-, rfl⟩ := pure_ok.1 hparts
  simp only [conclude, concludeExpr, bind_ok, ask_ok] at hr
  obtain ⟨type, _, ⟨ht, rfl⟩, hr⟩ := hr
  exact ⟨type, ht, (annotate_does _ _).1 hr⟩

/-- What is analyzed at a call after the callee. -/
def argumentNodes (args : List Expr) (keywords : List (Keyword Expr)) : List Node :=
  exprNodes (args ++ keywords.map (·.value))

/-- **What holds around each node that is concluded holds around an analysis.**
The nodes are those of a kind that parts belong to with their wholes. -/
theorem visit_relates (he : Enters config module enter) {frame : Frame} {Q : Node → Prop}
    {R : State → State → Prop} (refl : ∀ s, R s s) (trans : ∀ {a b c}, R a b → R b c → R a c)
    (within : ∀ {n}, Q n → Within (frame.body module) n)
    (parts : ∀ {n child}, Q n → child ∈ n.analyzed → Q child)
    (other : ∀ {n s s'}, Q n → (∀ site func args keywords, n ≠ .expr (.call site func args keywords)) →
      s.frame = frame → conclude config enter n s = .ok () s' → R s s')
    (call : ∀ {site func args keywords s t s₁ s'}, Q (.expr (.call site func args keywords)) →
      s.frame = frame → visit config enter (.expr func) s = .ok () t → R s t →
      t.frame = frame → (argumentNodes args keywords).forM (visit config enter) t = .ok () s₁ →
      R t s₁ → s₁.frame = frame →
      concludeExpr config enter (.call site func args keywords) s₁ = .ok () s' → R s s')
    {node : Node} {s s' : State} {u : Unit} (hq : Q node) (hs : s.frame = frame)
    (hr : visit config enter node s = .ok u s') : R s s' ∧ s'.frame = frame := by
  have here : ∀ {n : Node} {s : State}, Q n → s.frame = frame → s.Here module n := by
    intro n s hn hs
    rw [State.Here, hs]
    exact within hn
  have framed := (visit_steps he (here hq hs) hr).frame_eq.trans hs
  refine ⟨?_, framed⟩
  rw [visit_eq] at hr
  obtain ⟨_, s₁, hparts, hr⟩ := bind_ok.1 hr
  have ih : ∀ child ∈ node.analyzed, ∀ {t t' : State} {u : Unit}, t.frame = frame →
      visit config enter child t = .ok u t' → R t t' ∧ t'.frame = frame :=
    fun child hc {_ _ _} ht hv =>
      visit_relates he refl trans within parts other call (parts hq hc) ht hv
  obtain ⟨between, hs₁⟩ := forM_chain refl trans ih hs hparts
  by_cases hcall : ∃ site func args keywords, node = .expr (.call site func args keywords)
  · obtain ⟨site, func, args, keywords, rfl⟩ := hcall
    obtain ⟨_, t, hfunc, hargs⟩ := bind_ok.1 hparts
    obtain ⟨first, ht⟩ := ih (.expr func) List.mem_cons_self hs hfunc
    obtain ⟨rest, -⟩ := forM_chain refl trans
      (fun child hc {_ _ _} => ih child (List.mem_cons_of_mem _ hc)) ht hargs
    exact call hq hs hfunc first ht hargs rest hs₁ hr
  · have hne : ∀ site func args keywords, node ≠ .expr (.call site func args keywords) :=
      fun site func args keywords h => hcall ⟨site, func, args, keywords, h⟩
    exact trans between (other hq hne hs₁ hr)
termination_by node.rank
decreasing_by exact Node.rank_lt_of_mem_children (Node.mem_children_of_mem_analyzed hc)

end SdkUsage.Inference
