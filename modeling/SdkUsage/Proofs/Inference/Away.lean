/-
What one of two runs does while the other waits. It is then inside the functions
with the names, and what it writes is on their side: to their scopes, to their
expressions and returns, and to themselves. So the runs agree as before.

The functions have to stay among themselves: a call inside them is of no function
of the program's own.
-/
import SdkUsage.Proofs.Inference.Agree
import SdkUsage.Proofs.Inference.Caller

namespace SdkUsage

open SdkUsage.Tree

/-- Calls inside the functions with the names are of no function of the program's
own, as far as their names tell. -/
def Tree.Module.KeepsApart (names : List String) (module : Module) : Prop :=
  ∀ site callee id args keywords,
    Code names module true (.expr (.call site (.name callee id) args keywords)) →
    ∀ d, Code names module false (.stmt (.functionDef d)) → d.name.text = id → id ∈ names

namespace Inference

variable {config : Config} {names : List String} {module application : Module}

/-! ## Writes of one run -/

/-- An action on the other side than the program's own, with which names of the
module may be bound, too. -/
def Action.IsAway (names : List String) (module : Module) : Action → Prop
  | .annotate i _ | .call i _ _ => ∀ e, Code names module false (.expr e) → e.index ≠ i
  | .record i _ | .credit i _ => ∀ t, OwnStmt names module t → t.index ≠ i
  | .bind scope name _ =>
    Scoped names module false scope → scope = SymbolTable.root ∧ name ∈ names
  | .define scope name d => ¬Scoped names module false scope ∧ d.name.text = name ∧
    ∃ b, Code names module b (.stmt (.functionDef d))
  | .skip _ => True

namespace AgreeEnv

variable {env env' : Environment} (h : AgreeEnv names module env env') {scope : Nat}

include h

theorem bind_away {id : String}
    (ho : Scoped names module false scope → scope = SymbolTable.root ∧ id ∈ names)
    (type : Option Ty) : AgreeEnv names module env ((Action.bind scope id type).onEnv env') where
  table := h.table
  unread := by
    rw [Action.onEnv_table]
    exact h.unread
  types key name hs hn := by
    have other : (key, name) ≠ (scope, id) := by
      rintro ⟨⟩
      exact hn (ho hs).1 (ho hs).2
    rw [Action.get?_bind, if_neg other, h.types key name hs hn]
  definitions := by
    rw [Action.definitions_bind]
    exact h.definitions
  own := h.own
  known := by
    rw [Action.definitions_bind]
    exact h.known

theorem define_away (ho : ¬Scoped names module false scope) {b : Bool} {d : Function}
    (hd : Code names module b (.stmt (.functionDef d))) :
    AgreeEnv names module env ((Action.define scope d.name.text d).onEnv env') where
  table := h.table
  unread := h.unread
  types := h.types
  definitions key name hs := by
    have other : (key, name) ≠ (scope, d.name.text) := by
      rintro ⟨⟩
      exact ho hs
    rw [Action.get?_define, if_neg other, h.definitions key name hs]
  own := h.own
  known key name g hg := by
    rcases Action.found_define hg with ⟨hname, rfl⟩ | hg
    · exact ⟨hname, b, hd⟩
    · exact h.known key name g hg

end AgreeEnv

namespace AgreeTypes

variable {types types' : Annotations} (h : AgreeTypes names module types types') {i : Nat}

include h

theorem annotate_away (ho : ∀ e, Code names module false (.expr e) → e.index ≠ i)
    (type : Option Ty) :
    AgreeTypes names module types { types' with exprs := types'.exprs.put i type } where
  exprs e he := (IndexTable.get?_put_other type (ho e he)).trans (h.exprs e he)
  stmts := h.stmts
  onlyExprs := h.onlyExprs
  onlyStmts := h.onlyStmts

theorem record_away (ho : ∀ t, OwnStmt names module t → t.index ≠ i) (type : Option Ty) :
    AgreeTypes names module types { types' with stmts := types'.stmts.put i type } where
  exprs := h.exprs
  stmts t ht := (IndexTable.get?_put_other type (ho t ht)).trans (h.stmts t ht)
  onlyExprs := h.onlyExprs
  onlyStmts := h.onlyStmts

end AgreeTypes

/-- What one run does away from the program's own code keeps the agreement. -/
theorem Agree.act_away {s t : State} (h : Agree names module s t) {action : Action}
    (ho : action.IsAway names module) : Agree names module s (t.act action) := by
  cases action with
  | annotate i type => exact ⟨h.env, h.nodes.annotate_away ho type⟩
  | record i type => exact ⟨h.env, h.nodes.record_away ho _⟩
  | credit i type => exact ⟨h.env, h.nodes.record_away ho _⟩
  | bind scope name type => exact ⟨h.env.bind_away ho type, h.nodes⟩
  | define scope name d =>
    obtain ⟨hs, rfl, b, hd⟩ := ho
    exact ⟨h.env.define_away hs hd, h.nodes⟩
  | call i callee result =>
    cases result with
    | none => exact ⟨h.env, h.nodes⟩
    | some type => exact ⟨h.env, h.nodes.annotate_away ho _⟩
  | skip d => exact ⟨h.env, h.nodes⟩

/-! ## Inside the functions -/

/-- One run waits in a state that the other one agrees with, inside a function with
one of the names or inside a function in one. -/
structure Away (names : List String) (module : Module) (s t : State) : Prop where
  agree : Agree names module s t
  inside : ∃ g, t.frame.function = some g ∧ Side names module true g
  scope : Scoped names module true t.frame.ns.scope

namespace Away

variable {s t : State}

/-- What is analyzed is on the side of the functions. -/
theorem code (h : Away names module s t) {n : Node} (hn : t.Here application n) :
    Code names module true n := by
  obtain ⟨g, hg, side⟩ := h.inside
  rw [State.Here, Frame.body, hg] at hn
  exact side.code hn

theorem enter (h : Agree names module s t) {d : Function} (hd : Side names module true d)
    {ns outer : Namespace} (hns : t.env.definitionNamespace outer d = .ok ns) :
    Away names module s (t.entered ns d) := by
  have marked := Environment.marked_of_namespace h.env.table
    (Environment.definitionNamespace_unread h.env.unread outer hns)
  exact ⟨⟨h.env, h.nodes⟩, ⟨d, rfl, hd⟩, .function hd marked⟩

section

variable (apart : module.KeepsApart names) (h : Away names module s t)

include apart h

/-- Such functions call only such functions. -/
theorem callee {name : String} {args : List Expr} {d : Function} {ns : Namespace}
    (hc : t.Calls application name args d ns) : Side names module true d := by
  obtain ⟨site, callee, keywords, hn⟩ := hc.here
  obtain ⟨id, -, hd⟩ := Environment.definition_ok.1 hc.found
  obtain ⟨hname, b, hcode⟩ := h.agree.env.known id name d hd
  cases b with
  | true => exact hcode.side
  | false =>
    have mem := apart site callee name args keywords (h.code hn) d hcode hname
    have side := hcode.side
    rwa [decide_eq_true (hname ▸ mem)] at side

variable (hm : module.Numbered)

include hm

theorem isAway {action : Action} (hc : Cause config application t action) :
    action.IsAway names module := by
  have away : ∀ {id}, Scoped names module true id → ¬Scoped names module false id :=
    fun ht hf => nomatch ht.unique hm hf
  have annotated : ∀ {e}, t.Here application (.expr e) →
      ∀ e', Code names module false (.expr e') → e'.index ≠ e.index :=
    fun hn _ he' => he'.index_ne hm (h.code hn)
  cases hc with
  | name hn _ => exact annotated hn
  | member hn _ => exact annotated hn
  | called hn _ => exact annotated hn
  | literal hn _ => exact annotated hn
  | target ha _ => exact annotated ha.here
  | assigned | importModule | importFactory => exact fun hs => absurd hs (away h.scope)
  | returned hn _ => exact fun _ ht => ht.index_ne hm (h.code hn)
  | credited _ _ hd =>
    obtain ⟨g, hg, side⟩ := h.inside
    cases hg.symm.trans hd
    exact fun _ ht => ht.function_ne hm side
  | defined hn => exact ⟨away h.scope, rfl, true, h.code hn⟩
  | skipped => trivial
  | argument hcalls _ _ _ =>
    exact fun hs => absurd hs (away (enter h.agree (h.callee apart hcalls) hcalls.scope).scope)

theorem act {action : Action} (hc : Cause config application t action) :
    Away names module s (t.act action) :=
  ⟨h.agree.act_away (h.isAway apart hm hc), h.inside, h.scope⟩

omit apart in
theorem resume {t' : State} (h' : Agree names module s t') (name : String) (d : Function) :
    Away names module s (t'.resumed t.frame name d) := by
  have left : Agree names module s (t'.left t.frame d) := ⟨h'.env, h'.nodes⟩
  refine ⟨left.act_away fun hs => ?_, h.inside, h.scope⟩
  cases h.scope.unique hm hs

end

end Away

/-- **A run inside the functions with the names stays away from the program's own
code.** -/
theorem Steps.away (apart : module.KeepsApart names) (hm : module.Numbered) {s t t' : State}
    (h : Steps config application t t') (ht : Away names module s t) :
    Away names module s t' := by
  refine h.keeps ?_ ?_ ?_ ht
  · intro t action ht hc _
    exact ht.act apart hm hc
  · intro t name args d ns ht hc _
    exact .enter ht.agree (ht.callee apart hc) hc.scope
  · intro t t' name args d ns ht _ ht' _ _
    exact ht.resume hm ht'.agree name d

end Inference

end SdkUsage
