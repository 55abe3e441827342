/-
The states a run comes to, said in terms of the run itself. A run over a module
analyzes statement after statement; at a node it analyzes one part after the
other and then concludes the node; at a call that is decided by a body it goes
on with the statements of that body.

`Reaches` follows the run that far and asks of it only that what came before has
succeeded. So it speaks of the moments of every run, also of one that fails
later on.
-/
import SdkUsage.Proofs.Analysis

namespace SdkUsage.Inference

open SdkUsage.Tree

/-- The type of what is called does not say what the call gives. If it is a name,
a function under that name may. -/
def Undecided : Option Ty → Prop
  | some .clientFactory | some (.methodRef ..) | some (.function _) => False
  | _ => True

/-- **Where a run over a module comes.** The run is at a node, with some of its
parts still to be analyzed, and bodies may be nested so deep from there. Without
such parts the node is about to be concluded. -/
inductive Reaches (config : Config) (module : Module) : Nat → Node → List Node → State → Prop
  | top {before t after s} : module.body = before ++ t :: after →
    visitAll config (enterBody config (nestingBound module)) before (Analysis.initial module)
      = .ok () s →
    Reaches config module (nestingBound module) (.stmt t) (Node.stmt t).analyzed s
  | part {bound node child rest s} : Reaches config module bound node (child :: rest) s →
    Reaches config module bound child child.analyzed s
  | next {bound node child rest s s'} : Reaches config module bound node (child :: rest) s →
    visit config (enterBody config bound) child s = .ok () s' →
    Reaches config module bound node rest s'
  | body {bound site callee name args keywords s d ns s₁ before t after s₂} :
    Reaches config module (bound + 1) (.expr (.call site (.name callee name) args keywords)) [] s →
    Undecided (s.types.ofExpr? (.name callee name)) →
    s.env.definition s.frame.ns name = .ok d →
    s.env.definitionNamespace s.frame.ns d = .ok ns → Free config s d →
    passArguments ns args d.params.args s = .ok () s₁ → d.body = before ++ t :: after →
    visitAll config (enterBody config bound) before (s₁.entered ns d) = .ok () s₂ →
    Reaches config module bound (.stmt t) (Node.stmt t).analyzed s₂

namespace Reaches

variable {config : Config} {module : Module} {bound : Nat} {node : Node} {rest : List Node}
  {s : State}

/-- **What runs keep holds wherever a run comes,** if it holds in the beginning
and a function can be entered with it. -/
theorem keeps {P : State → Prop} (start : P (Analysis.initial module))
    (steps : ∀ {s s'}, P s → Steps config module s s' → P s')
    (enter : ∀ {s name args d ns}, P s → s.Calls module name args d ns → Free config s d →
      P (s.entered ns d))
    (h : Reaches config module bound node rest s) :
    P s ∧ s.Here module node ∧ ∀ child ∈ rest, child ∈ node.analyzed := by
  induction h with
  | @top before t after s hb hr =>
    have mem : ∀ t ∈ before, (Analysis.initial module).Here module (.stmt t) :=
      fun t ht => .stmt (by rw [Frame.body]; exact hb ▸ List.mem_append_left _ ht)
    have run := visitAll_steps (enterBody_steps config module _) mem hr
    refine ⟨steps start run, run.here (.stmt ?_), fun _ hc => hc⟩
    show t ∈ module.body
    simp [hb]
  | part _ ih => exact ⟨ih.1, ih.2.1.part (ih.2.2 _ List.mem_cons_self), fun _ hc => hc⟩
  | next _ hr ih =>
    have run := visit_steps (enterBody_steps config module _)
      (ih.2.1.part (ih.2.2 _ List.mem_cons_self)) hr
    exact ⟨steps ih.1 run, run.here ih.2.1, fun child hc => ih.2.2 child (List.mem_cons_of_mem _ hc)⟩
  | @body bound site callee name args keywords s d ns s₁ before t after s₂ _ _ hd hns hfree hp hb hr
      ih =>
    have calls : s.Calls module name args d ns := ⟨⟨site, callee, keywords, ih.2.1⟩, hd, hns⟩
    obtain ⟨passed, calls', free⟩ : Acts config module s s₁ ∧ _ :=
      passArguments_acts calls hfree hp
    have mem : ∀ t ∈ before, (s₁.entered ns d).Here module (.stmt t) :=
      fun t ht => .stmt (show t ∈ d.body from hb ▸ List.mem_append_left _ ht)
    have run := visitAll_steps (enterBody_steps config module _) mem hr
    refine ⟨steps (enter (steps ih.1 passed.steps) calls' free) run, run.here (.stmt ?_), fun _ hc => hc⟩
    show t ∈ d.body
    simp [hb]

end Reaches

end SdkUsage.Inference
