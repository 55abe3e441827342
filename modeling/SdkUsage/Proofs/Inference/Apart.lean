/-
What happens inside functions leaves the module alone: the names of the module's
scope, the types of the expressions that stand outside of functions, and with
them all that the trace says about either.
-/
import SdkUsage.Proofs.Inference.Caller
import SdkUsage.Proofs.Inference.Frame

namespace SdkUsage.Inference

open SdkUsage.Tree

/-- An event is about something inside functions. -/
def Event.Apart (module : Module) : Event → Prop
  | .annotated i _ | .called i _ _ => ∀ e, Within module.body (.expr e) → e.index ≠ i
  | .bound scope _ _ | .defined scope _ _ => scope ≠ SymbolTable.root
  | _ => True

/-- From one state to another the module has been left alone. -/
structure Apart (module : Module) (s s' : State) : Prop where
  env : s.env.SameAt s'.env SymbolTable.root
  exprs : ∀ e, Within module.body (.expr e) → s'.types.ofExpr? e = s.types.ofExpr? e
  trace : ∃ events, s'.trace = events ++ s.trace ∧ ∀ event ∈ events, event.Apart module

namespace Apart

variable {module : Module} {s s' s'' : State}

theorem refl (s : State) : Apart module s s :=
  ⟨fun _ => ⟨rfl, rfl⟩, fun _ _ => rfl, [], rfl, by simp⟩

theorem trans (h : Apart module s s') (h' : Apart module s' s'') : Apart module s s'' := by
  obtain ⟨events, ht, ha⟩ := h.trace
  obtain ⟨events', ht', ha'⟩ := h'.trace
  refine ⟨fun name => ⟨(h'.env name).1.trans (h.env name).1, (h'.env name).2.trans (h.env name).2⟩,
    fun e he => (h'.exprs e he).trans (h.exprs e he), events' ++ events, ?_, ?_⟩
  · rw [ht', ht, List.append_assoc]
  · intro event hm
    rcases List.mem_append.1 hm with hm | hm
    · exact ha' event hm
    · exact ha event hm

/-- A change of nothing but the trace and the frame. -/
theorem note {event : Event} (he : s'.env = s.env) (ht : s'.types = s.types)
    (htrace : s'.trace = event :: s.trace) (ha : event.Apart module) : Apart module s s' := by
  refine ⟨fun name => ?_, fun e _ => ?_, [event], htrace, ?_⟩
  · rw [he]
    exact ⟨rfl, rfl⟩
  · rw [ht]
  · intro event' hm
    cases List.mem_singleton.1 hm
    exact ha

theorem bind {scope : Nat} (hs : scope ≠ SymbolTable.root) (name : String) (type : Option Ty) :
    Apart module s (s.act (.bind scope name type)) := by
  refine ⟨(Action.bind scope name type).sameAt_onEnv (fun h => hs (Option.some.inj h)) s.env,
    fun e _ => rfl, [.bound scope name type], rfl, ?_⟩
  intro event hm
  cases List.mem_singleton.1 hm
  exact hs

/-- A type of an expression inside a function. -/
theorem annotated {i : Nat} (hi : ∀ e, Within module.body (.expr e) → e.index ≠ i)
    (type : Option Ty) {e : Expr} (he : Within module.body (.expr e)) :
    (s.types.exprs.put i type).get? e.index = s.types.ofExpr? e :=
  IndexTable.get?_put_other _ (hi e he)

variable {config : Config}

/-- Expressions inside a function are other ones than those outside. -/
theorem index_ne (hm : module.Numbered) (hs : s.Framed module) {d : Function}
    (hd : s.frame.function = some d) {e' : Expr} (he' : s.Here module (.expr e')) {e : Expr}
    (he : Within module.body (.expr e)) : e.index ≠ e'.index := by
  rw [State.Here, Frame.body, hd] at he'
  exact hm.expr_ne_of_hidden he (hs.placed.function d hd) he'

theorem act (hm : module.Numbered) (hs : s.Framed module) {d : Function}
    (hd : s.frame.function = some d) {action : Action} (hc : Cause config module s action) :
    Apart module s (s.act action) := by
  -- What is written to is the scope of some function.
  have scope : action.scope? ≠ some SymbolTable.root := by
    intro hw
    rcases hc.scope hw with h | ⟨name, args, d', ns, hcalls, -, h⟩
    · exact (hs.ns_of hd).scope_ne_root h.symm
    · exact (hs.of_calls hm hcalls).scope_ne_root h.symm
  have env : s.env.SameAt (s.act action).env SymbolTable.root := action.sameAt_onEnv scope s.env
  cases action with
  | annotate i type =>
    obtain ⟨e', he', rfl, -⟩ := hc.annotated
    have hi : ∀ e, Within module.body (.expr e) → e.index ≠ e'.index :=
      fun e he => index_ne hm hs hd he' he
    refine ⟨env, fun e he => annotated hi type he, _, rfl, ?_⟩
    simpa [Action.events, Event.Apart] using hi
  | call i callee result =>
    cases hc with
    | @called site _ _ _ _ _ hn _ =>
      have hi : ∀ e, Within module.body (.expr e) → e.index ≠ site.index :=
        fun e he => index_ne hm hs hd hn he
      cases result with
      | none =>
        refine ⟨env, fun e he => rfl, _, rfl, ?_⟩
        simpa [Action.events, Event.Apart] using hi
      | some type =>
        refine ⟨env, fun e he => annotated hi _ he, _, rfl, ?_⟩
        simpa [Action.events, Event.Apart] using hi
  | bind scope' name type =>
    exact bind (fun h => scope (congrArg some h)) name type
  | define scope' name definition =>
    refine ⟨env, fun e he => rfl, _, rfl, ?_⟩
    simpa [Action.events, Event.Apart] using fun h => scope (congrArg some h)
  | record | credit | skip =>
    refine ⟨env, fun e he => rfl, _, rfl, ?_⟩
    simp [Action.events, Event.Apart]

end Apart

variable {config : Config} {module : Module} {s s' : State}

/-- **A run inside a function leaves the module alone.** -/
theorem Steps.apart (hm : module.Numbered) (h : Steps config module s s') (hs : s.Framed module)
    (hf : s.frame.function ≠ none) : Apart module s s' := by
  have run : s'.Framed module ∧ s'.frame.function ≠ none ∧ Apart module s s' := by
    refine h.keeps (P := fun t => t.Framed module ∧ t.frame.function ≠ none ∧ Apart module s t)
      ?_ ?_ ?_ ⟨hs, hf, .refl s⟩
    · intro t action ⟨ht, hf, ha⟩ hc hfits
      obtain ⟨d, hd⟩ := Option.ne_none_iff_exists'.1 hf
      exact ⟨(Steps.one hc hfits).framed hm ht, hf, ha.trans (.act hm ht hd hc)⟩
    · intro t name args d ns ⟨ht, _, ha⟩ hc _
      exact ⟨ht.enter hm hc, by rintro ⟨⟩, ha.trans (.note rfl rfl rfl trivial)⟩
    · intro t t' name args d ns ⟨ht, hf, _⟩ _ ⟨ht', _, ha'⟩ _ _
      obtain ⟨g, hg⟩ := Option.ne_none_iff_exists'.1 hf
      have left : Apart module t' (t'.left t.frame d) := .note rfl rfl rfl trivial
      exact ⟨ht.resume ht' name d, hf,
        ha'.trans (left.trans (.bind (ht.ns_of hg).scope_ne_root _ _))⟩
  exact run.2.2

theorem passArguments_apart {ns : Namespace} {args : List Expr} {params : List (Param Expr)}
    {u : Unit} (hns : ns.scope ≠ SymbolTable.root)
    (hr : passArguments ns args params s = .ok u s') : Apart module s s' :=
  passArguments_chain Apart.refl Apart.trans (fun _ _ _ => .bind hns _ _) hr

/-- The body of a function that is called leaves the module alone. -/
theorem body_apart {enter : Function → Run Unit} (hm : module.Numbered)
    (he : Enters config module enter) (hs : s.Framed module) {name : String} {args : List Expr}
    {d : Function} {ns : Namespace} {s₁ s₂ : State} (hc : s.Calls module name args d ns)
    (hfree : Free config s d) (hp : passArguments ns args d.params.args s = .ok () s₁)
    (hb : enter d (s₁.entered ns d) = .ok () s₂) :
    Steps config module (s₁.entered ns d) s₂ ∧ Apart module s s₂ := by
  obtain ⟨acts, calls, -⟩ : Acts config module s s₁ ∧ _ := passArguments_acts hc hfree hp
  have framed := (acts.steps.framed hm hs).enter hm calls
  have run : Steps config module (s₁.entered ns d) s₂ := he rfl hb
  have passed : Apart module s s₁ := passArguments_apart (hs.of_calls hm hc).scope_ne_root hp
  have entered : Apart module s₁ (s₁.entered ns d) := .note rfl rfl rfl trivial
  exact ⟨run, passed.trans (entered.trans (run.apart hm framed (by rintro ⟨⟩)))⟩

end SdkUsage.Inference
