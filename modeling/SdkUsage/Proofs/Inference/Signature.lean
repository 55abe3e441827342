/-
Signatures of functions of the module. Where a name of the module is called and
is not known to be anything, the body of the function is analyzed, and the name
takes the type of the function, its signature. Later calls that look the name up
go by that.

So as long as nothing else gives the name a value, the function is not analyzed
again once the name has a signature, unless by calls that looked the name up
before. This is `Freezes`, which holds of every analysis of a node: it begins
with looking up what it calls.
-/
import SdkUsage.Proofs.Inference.Apart
import SdkUsage.Proofs.Inference.Chain
import SdkUsage.Proofs.Inference.Flow
import SdkUsage.Proofs.Inference.Record

namespace SdkUsage

open SdkUsage.Tree SdkUsage.Inference

variable {action : Action} {d : Function}

/-- A statement gives a name a value that inference follows, by an assignment or
an import. -/
def Tree.Stmt.gives (name : String) : Stmt → Bool
  | .assign _ targets _ => targets.any (·.isName name)
  | .annAssign _ target _ (some _) => target.isName name
  | .importModules _ names | .importFrom _ _ _ names => names.any (·.boundName = name)
  | _ => false

namespace Inference

/-! ## What the trace says about a name of the module -/

/-- The type that a name of the module was given last. -/
def lastBound (name : String) : List Event → Option Ty
  | [] => none
  | .bound scope id type :: trace =>
    if scope = SymbolTable.root ∧ id = name then type else lastBound name trace
  | _ :: trace => lastBound name trace

/-- The definition that calls of a name of the module go by: the last one that was
visited while the name had no type. -/
def inForce (name : String) : List Event → Option Nat
  | [] => none
  | .defined scope id d :: trace =>
    if scope = SymbolTable.root ∧ id = name ∧ lastBound name trace = none then some d
    else inForce name trace
  | _ :: trace => inForce name trace

/-- An event is about no name. -/
def Event.isSilent : Event → Bool
  | .bound .. | .defined .. => false
  | _ => true

section Trace

variable {module : Module} {name : String} {trace events : List Event}

/-- What happens inside functions is about no name of the module. -/
theorem inForce_append_apart (h : ∀ event ∈ events, event.Apart module) :
    inForce name (events ++ trace) = inForce name trace := by
  induction events with
  | nil => rfl
  | cons event events ih =>
    have rest := ih fun e he => h e (List.mem_cons_of_mem _ he)
    have apart := h event List.mem_cons_self
    cases event with
    | defined scope id d =>
      rw [List.cons_append, inForce, if_neg fun hc => apart hc.1]
      exact rest
    | _ => exact rest

theorem inForce_append_silent (h : ∀ event ∈ events, event.isSilent = true) :
    inForce name (events ++ trace) = inForce name trace := by
  induction events with
  | nil => rfl
  | cons event events ih =>
    have rest := ih fun e he => h e (List.mem_cons_of_mem _ he)
    have silent := h event List.mem_cons_self
    cases event with
    | bound | defined => cases silent
    | _ => exact rest

theorem lastBound_append_silent (h : ∀ event ∈ events, event.isSilent = true) :
    lastBound name (events ++ trace) = lastBound name trace := by
  induction events with
  | nil => rfl
  | cons event events ih =>
    have rest := ih fun e he => h e (List.mem_cons_of_mem _ he)
    have silent := h event List.mem_cons_self
    cases event with
    | bound | defined => cases silent
    | _ => exact rest

theorem lastBound_bind (scope : Nat) (id : String) (type : Option Ty) :
    lastBound name ((Action.bind scope id type).events ++ trace)
      = if (SymbolTable.root, name) = (scope, id) then type else lastBound name trace := by
  show (if scope = SymbolTable.root ∧ id = name then type else lastBound name trace) = _
  simp only [Prod.mk.injEq, eq_comm]

/-- Actions that write to no scope are about no name. -/
theorem silent_events (h : action.scope? = none) :
    ∀ event ∈ action.events, event.isSilent = true := by
  cases action with
  | bind | define => cases h
  | call i callee result => cases result <;> simp [Action.events, Event.isSilent]
  | annotate | record | credit | skip => simp [Action.events, Event.isSilent]

/-- Such actions leave the environment as it is. -/
theorem onEnv_eq (h : action.scope? = none) (env : Environment) : action.onEnv env = env := by
  cases action with
  | bind | define => cases h
  | annotate | record | credit | call | skip => rfl

end Trace

/-! ## What is known about names and functions -/

/-- The state agrees with the trace about a name of the module; functions are
known under their names, those of the module in the module's scope and others
elsewhere; and what is known of a function is what it returns. -/
structure State.Tracked (module : Module) (name : String) (s : State) : Prop where
  framed : s.Framed module
  idle : s.frame.function = none → s.frame.active = []
  recorded : s.Recorded
  bound : s.env.types.get? (SymbolTable.root, name) = lastBound name s.trace
  owned : ∀ {id key d}, s.env.definitions.get? (id, key) = some d → d.name.text = key ∧
    (Within module.body (.stmt (.functionDef d)) ↔ id = SymbolTable.root)
  functions : ∀ {d type}, DefinedIn module d → s.types.stmts.get? d.site.index = some type →
    ∃ returns, type = .function returns
  visited : ∀ {i}, .defined SymbolTable.root name i ∈ s.trace →
    (s.env.definitions.get? (SymbolTable.root, name)).isSome

variable {config : Config} {module : Module} {name : String} {s s' : State}

/-- The number of a `return` is not that of a function. -/
theorem returning_ne (hm : module.Numbered) (hs : s.Placed module) {site : Site} {value : Expr}
    (hn : s.Here module (.stmt (.returning site (some value)))) (hd : DefinedIn module d) :
    site.index ≠ d.site.index := by
  intro hi
  cases hm.stmt_eq (hs.mem_nodes hn) hd hi

namespace State.Tracked

theorem start (module : Module) (name : String) :
    (Analysis.initial module).Tracked module name where
  framed := ⟨State.placed_start module _ _ _, rfl, rfl⟩
  idle := fun _ => rfl
  recorded := State.recorded_start module
  bound := rfl
  owned := by rintro _ _ _ ⟨⟩
  functions := by
    intro d type _ h
    cases (IndexTable.get?_ofSize module.statements d.site.index).symm.trans h
  visited := by rintro _ ⟨⟩

/-- Nothing happens to names. -/
theorem silent (h : s.Tracked module name) (framed : s'.Framed module)
    (idle : s'.frame.function = none → s'.frame.active = []) (recorded : s'.Recorded)
    (henv : s'.env = s.env)
    (functions : ∀ {d type}, DefinedIn module d →
      s'.types.stmts.get? d.site.index = some type → ∃ returns, type = .function returns)
    (events : List Event) (htrace : s'.trace = events ++ s.trace)
    (hsilent : ∀ event ∈ events, event.isSilent = true) : s'.Tracked module name where
  framed := framed
  idle := idle
  recorded := recorded
  bound := by rw [henv, htrace, lastBound_append_silent hsilent, h.bound]
  owned := by rw [henv]; exact h.owned
  functions := functions
  visited := by
    intro i hi
    rw [htrace] at hi
    rw [henv]
    rcases List.mem_append.1 hi with hi | hi
    · cases hsilent _ hi
    · exact h.visited hi

theorem bind (h : s.Tracked module name) (scope : Nat) (id : String) (type : Option Ty)
    (hf : (Action.bind scope id type).Fits s) :
    (s.act (.bind scope id type)).Tracked module name where
  framed := by
    refine ⟨⟨h.framed.placed.function, h.framed.placed.active, fun key d hd => ?_⟩,
      (Action.onEnv_table _ _).trans h.framed.table, h.framed.frame⟩
    rw [State.act_env, Action.definitions_bind] at hd
    exact h.framed.placed.definitions key d hd
  idle := h.idle
  recorded := h.recorded.act hf
  bound := by
    rw [State.act_env, Action.get?_bind, h.bound]
    exact (lastBound_bind scope id type).symm
  owned := by
    rw [State.act_env, Action.definitions_bind]
    exact h.owned
  functions := h.functions
  visited := by
    intro i hm
    rw [State.act_env, Action.definitions_bind]
    rcases List.mem_append.1 hm with hm | hm
    · cases List.mem_singleton.1 hm
    · exact h.visited hm

/-- A function is defined in the scope of the frame it stands in. -/
theorem define (h : s.Tracked module name) (hm : module.Numbered) {d : Function}
    (hn : s.Here module (.stmt (.functionDef d)))
    (hf : (Action.define s.frame.ns.scope d.name.text d).Fits s) :
    (s.act (.define s.frame.ns.scope d.name.text d)).Tracked module name where
  framed := (Steps.one (.defined hn) hf : Steps {} module s _).framed hm h.framed
  idle := h.idle
  recorded := h.recorded.act hf
  bound := h.bound
  owned := by
    intro id key d' hd'
    rw [State.act_env, Action.get?_define] at hd'
    split at hd'
    · next hkey =>
      cases hkey
      cases hd'
      refine ⟨rfl, fun hw => ?_, fun hr => h.framed.within hr hn⟩
      cases hfun : s.frame.function with
      | none =>
        rw [h.framed.ns_eq hfun]
        rfl
      | some g =>
        rw [State.Here, Frame.body, hfun] at hn
        exact absurd hn (hw.not_within_body hm (h.framed.placed.function g hfun))
    · exact h.owned hd'
  functions := h.functions
  visited := by
    intro i hi
    rw [State.act_env, Action.get?_define]
    split
    · rfl
    · next hkey =>
      rcases List.mem_append.1 hi with hi | hi
      · obtain ⟨hscope, hname, -⟩ := Event.defined.inj (List.mem_singleton.1 hi)
        exact absurd (by rw [hscope, hname]) hkey
      · exact h.visited hi

theorem act (h : s.Tracked module name) (hm : module.Numbered) (hc : Cause config module s action)
    (hf : action.Fits s) : (s.act action).Tracked module name := by
  have framed := (Steps.one hc hf).framed hm h.framed
  have recorded := h.recorded.act hf
  have placed := h.framed.placed
  -- The types of functions where a statement gets a type.
  have put : ∀ {i : Nat} {new : Ty}, i < s.types.stmts.size →
      (∀ d, DefinedIn module d → i = d.site.index → ∃ returns, new = .function returns) →
      ∀ {d type}, DefinedIn module d →
        (s.types.stmts.put i (some new)).get? d.site.index = some type →
        ∃ returns, type = .function returns := by
    intro i new hi hnew d type hd ht
    rw [get?_put hi] at ht
    split at ht
    · next heq =>
      cases ht
      exact hnew d hd heq
    · exact h.functions hd ht
  cases hc with
  | assigned | importModule | importFactory | argument => exact h.bind _ _ _ hf
  | defined hn => exact h.define hm hn hf
  | returned hn ht =>
    refine h.silent framed h.idle recorded rfl (fun hd => put hf ?_ hd) _ rfl (silent_events rfl)
    exact fun d hd hi => absurd hi (returning_ne hm placed hn hd)
  | credited hn ht hfun =>
    refine h.silent framed h.idle recorded rfl (fun hd => put hf ?_ hd) _ rfl (silent_events rfl)
    exact fun d hd hi => ⟨_, rfl⟩
  | @called _ _ _ _ _ result =>
    refine h.silent framed h.idle recorded rfl ?_ _ rfl (silent_events rfl)
    cases result <;> exact h.functions
  | name | member | literal | target | skipped =>
    exact h.silent framed h.idle recorded rfl h.functions _ rfl (silent_events rfl)

theorem enter (h : s.Tracked module name) (hm : module.Numbered) {id : String} {args : List Expr}
    {ns : Namespace} (hc : s.Calls module id args d ns) : (s.entered ns d).Tracked module name :=
  h.silent (h.framed.enter hm hc) (by rintro ⟨⟩) ⟨h.recorded.exprs, h.recorded.stmts⟩ rfl
    h.functions [_] rfl (by simp [Event.isSilent])

theorem resume (h : s.Tracked module name) (h' : s'.Tracked module name) {id : String}
    (hf : (s'.signature s.frame id d).Fits s') : (s'.resumed s.frame id d).Tracked module name := by
  have placed : (s'.left s.frame d).Placed module :=
    ⟨h.framed.placed.function, h.framed.placed.active, h'.framed.placed.definitions⟩
  have left : (s'.left s.frame d).Tracked module name :=
    h'.silent ⟨placed, h'.framed.table, h.framed.frame⟩ h.idle
      ⟨h'.recorded.exprs, h'.recorded.stmts⟩ rfl h'.functions [_] rfl
      (by simp [Event.isSilent])
  exact left.bind _ _ _ hf

end State.Tracked

theorem Steps.tracked (hm : module.Numbered) (h : Steps config module s s')
    (hs : s.Tracked module name) : s'.Tracked module name := by
  refine h.keeps ?_ ?_ ?_ hs
  · intro t action ht hc hf
    exact ht.act hm hc hf
  · intro t id args d ns ht hc _
    exact ht.enter hm hc
  · intro t t' id args d ns ht _ ht' _ hf
    exact ht.resume ht' hf

/-! ## While a name has a signature -/

/-- The name has the signature of a function of the module, which is still what is
known of the function, and the run is not in the function itself. -/
structure Frozen (module : Module) (name : String) (d : Function) (returns : Ty) (s : State) :
    Prop where
  tracked : s.Tracked module name
  signature : s.env.types.get? (SymbolTable.root, name) = some (.function returns)
  type : s.types.stmts.get? d.site.index = some (.function returns)
  away : s.frame.function ≠ some d

/-- A call looks the name up, in a frame from where it is the module's. -/
def LooksUp (module : Module) (name : String) (callee : Site) : Prop :=
  ∃ frame : Frame, frame.Fits module ∧ (∀ g ∈ frame.function, DefinedIn module g) ∧
    (∃ site args keywords,
      Within (frame.body module) (.expr (.call site (.name callee name) args keywords))) ∧
    ({ table := .build module } : Environment).owner frame.ns name = .ok (some SymbolTable.root)

/-- The signature stays, and with it what calls have found under the name. -/
def Freezes (module : Module) (name : String) (d : Function) (returns : Ty) (s s' : State) : Prop :=
  Frozen module name d returns s → Frozen module name d returns s' ∧
    ∀ callee, LooksUp module name callee →
      s.types.exprs.get? callee.index = some (.function returns) →
      s'.types.exprs.get? callee.index = some (.function returns)

/-- Where a node is analyzed in a frame, it is in that frame that it stands. -/
theorem State.Framed.frame_unique (hm : module.Numbered) (hs : s.Framed module) {frame : Frame}
    (hfits : frame.Fits module) (hdef : ∀ g ∈ frame.function, DefinedIn module g) {n : Node}
    (hn : Within (frame.body module) n) (hn' : s.Here module n) : s.frame.ns = frame.ns := by
  unfold State.Here at hn'
  unfold Frame.body at hn hn'
  unfold Frame.Fits at hfits
  cases hf : frame.function with
  | none =>
    rw [hf] at hn hfits
    cases hf' : s.frame.function with
    | none => rw [hs.ns_eq hf', hfits]
    | some g =>
      rw [hf'] at hn'
      exact absurd hn' (hn.not_within_body hm (hs.placed.function g hf'))
  | some g =>
    rw [hf] at hn hfits
    cases hf' : s.frame.function with
    | none =>
      rw [hf'] at hn'
      exact absurd hn (hn'.not_within_body hm (hdef g hf))
    | some g' =>
      rw [hf'] at hn'
      cases hn.function_eq hm hn' (hdef g hf) (hs.placed.function g' hf')
      exact (hs.ns_of hf').eq hfits

namespace Freezes

variable {d : Function} {returns : Ty}

theorem refl (s : State) : Freezes module name d returns s s := fun h => ⟨h, fun _ _ ht => ht⟩

theorem trans {a b c : State} (h : Freezes module name d returns a b)
    (h' : Freezes module name d returns b c) : Freezes module name d returns a c := by
  intro ha
  obtain ⟨hb, kept⟩ := h ha
  obtain ⟨hc, kept'⟩ := h' hb
  exact ⟨hc, fun callee hl ht => kept' callee hl (kept callee hl ht)⟩

end Freezes

section Kept

variable (hm : module.Numbered)
  (only : ∀ t, Within module.body (.stmt t) → t.gives name = false)

include hm only

/-- Apart from calls, nothing gives the name a type. -/
theorem Cause.root_kept (hs : s.Framed module) (hc : Cause config module s action) :
    (s.act action).env.types.get? (SymbolTable.root, name)
      = s.env.types.get? (SymbolTable.root, name) := by
  -- A statement that binds a name of the module is none that gives this name a value.
  have other : ∀ {t : Stmt} {scope : Nat} {id : String}, scope = s.frame.ns.scope →
      s.Here module (.stmt t) → (id = name → t.gives name = true) →
      (SymbolTable.root, name) ≠ (scope, id) := by
    intro t scope id hscope hn hgives hkey
    obtain ⟨hr, hid⟩ := Prod.mk.inj hkey
    have within := hs.within (hscope ▸ hr.symm) hn
    cases (only t within).symm.trans (hgives hid.symm)
  cases hc with
  | @assigned site id value type ha hk =>
    rw [State.act_env, Action.get?_bind]
    cases ha with
    | plain hn ht =>
      refine if_neg (other rfl hn fun hid => List.any_eq_true.2 ⟨_, ht, ?_⟩)
      exact decide_eq_true hid
    | annotated hn => exact if_neg (other rfl hn fun hid => decide_eq_true hid)
  | importModule hn ha hname =>
    rw [State.act_env, Action.get?_bind]
    exact if_neg (other rfl hn fun hid => List.any_eq_true.2 ⟨_, ha, decide_eq_true hid⟩)
  | importFactory hn ha hname =>
    rw [State.act_env, Action.get?_bind]
    exact if_neg (other rfl hn fun hid => List.any_eq_true.2 ⟨_, ha, decide_eq_true hid⟩)
  | argument hcalls =>
    rw [State.act_env, Action.get?_bind]
    refine if_neg fun hkey => ?_
    exact (hs.of_calls hm hcalls).scope_ne_root (Prod.mk.inj hkey).1.symm
  | name | member | called | literal | target | returned | credited | defined | skipped => rfl

variable {d : Function} {returns : Ty} (hd : Within module.body (.stmt (.functionDef d)))

omit only in
include hd in
/-- What is known of the function stays as long as the run is not in it. -/
theorem Frozen.type_act (h : Frozen module name d returns s) (hc : Cause config module s action)
    (hf : action.Fits s) :
    (s.act action).types.stmts.get? d.site.index = some (.function returns) := by
  have placed := h.tracked.framed.placed
  have kept := h.type
  cases hc with
  | returned hn ht =>
    show (s.types.stmts.put _ _).get? _ = _
    rw [get?_put hf, if_neg (returning_ne hm placed hn hd.mem_nodes)]
    exact kept
  | @credited site value type g hn ht hg =>
    show (s.types.stmts.put _ _).get? _ = _
    rw [get?_put hf, if_neg]
    · exact kept
    · intro hi
      cases hm.stmt_eq (placed.function g hg) hd.mem_nodes hi
      exact h.away hg
  | @called _ _ _ _ _ result => cases result <;> exact kept
  | name | member | literal | assigned | target | importModule | importFactory | defined | skipped
  | argument => exact kept

omit only in
/-- Where a call has found the signature under the name, it would find it again. -/
theorem Frozen.found_act (h : Frozen module name d returns s) (hc : Cause config module s action)
    (hf : action.Fits s) {callee : Site} (hl : LooksUp module name callee)
    (ht : s.types.exprs.get? callee.index = some (.function returns)) :
    (s.act action).types.exprs.get? callee.index = some (.function returns) := by
  obtain ⟨frame, hfits, hdef, ⟨site, args, keywords, hcall⟩, howner⟩ := hl
  have framed := h.tracked.framed
  have part : Node.Part (.expr (.name callee name)) (.expr (.call site (.name callee name) args
      keywords)) := Node.mem_children.1 (by simp [Node.children, Expr.children])
  have within : Within (frame.body module) (.expr (.name callee name)) := hcall.part rfl part
  have node := Frame.mem_nodes hdef within
  cases action with
  | annotate i type =>
    show (s.types.exprs.put i type).get? callee.index = _
    rw [get?_put hf]
    split
    · next hi =>
      cases hc with
      | name hn hty =>
        cases hm.expr_eq (framed.placed.mem_nodes hn) node hi
        obtain ⟨owner, ho, rfl⟩ := Environment.typeOf_ok.1 hty
        rw [framed.frame_unique hm hfits hdef within hn] at ho
        have congr : s.env.owner frame.ns name = Environment.owner { table := .build module } _ _ :=
          Environment.owner_congr framed.table _ _
        cases howner.symm.trans (congr.symm.trans ho)
        exact h.signature
      | member hn _ => cases hm.expr_eq (framed.placed.mem_nodes hn) node hi
      | literal hn hlit =>
        cases hm.expr_eq (framed.placed.mem_nodes hn) node hi
        cases hlit
      | target ha _ =>
        -- What is called is not assigned to.
        cases hm.expr_eq (framed.placed.mem_nodes ha.here) node hi
        obtain ⟨t, hn, part'⟩ := ha.part
        cases hm.parent_eq (Frame.mem_nodes hdef hcall) (framed.placed.mem_nodes hn) part part'
    · exact ht
  | call i calleeType result =>
    cases result with
    | none => exact ht
    | some type =>
      show (s.types.exprs.put i (some type)).get? callee.index = _
      rw [get?_put hf]
      split
      · next hi =>
        cases hc with
        | called hn _ => cases hm.expr_eq (framed.placed.mem_nodes hn) node hi
      · exact ht
  | record | credit | bind | define | skip => exact ht

include hd in
/-- **No action breaks a signature.** -/
theorem Freezes.act (hc : Cause config module s action) (hf : action.Fits s) :
    Freezes module name d returns s (s.act action) := by
  intro h
  refine ⟨⟨h.tracked.act hm hc hf, ?_, h.type_act hm hd hc hf, h.away⟩,
    fun callee hl ht => h.found_act hm hc hf hl ht⟩
  rw [hc.root_kept hm only h.tracked.framed]
  exact h.signature

include hd in
theorem Freezes.acts (h : Acts config module s s') : Freezes module name d returns s s' := by
  induction h with
  | refl => exact .refl s
  | step _ hc _ hf ih => exact ih.trans (.act hm only hd hc hf)

variable (hname : d.name.text = name)

include hd hname

/-- The body of another function leaves the signature as it is. -/
theorem Frozen.body {enter : Function → Run Unit}
    (henter : ∀ {g s s' u}, s.frame.function = some g → enter g s = .ok u s' →
      Freezes module name d returns s s')
    (h : Frozen module name d returns s) {id : String} {args : List Expr} {g : Function}
    {ns : Namespace} {s₁ s₂ : State} (hc : s.Calls module id args g ns) (hfree : Free config s g)
    (hp : passArguments ns args g.params.args s = .ok () s₁)
    (hb : enter g (s₁.entered ns g) = .ok () s₂) (hf : (s₂.signature s.frame id g).Fits s₂)
    (hne : ∀ owner, s.env.owner s.frame.ns id = .ok (some owner) →
      (SymbolTable.root, name) ≠ (owner, id)) :
    Frozen module name d returns (s₂.resumed s.frame id g) ∧
      ∀ callee, LooksUp module name callee →
        s.types.exprs.get? callee.index = some (.function returns) →
        (s₂.resumed s.frame id g).types.exprs.get? callee.index = some (.function returns) := by
  obtain ⟨owner, howner, hg⟩ := Environment.definition_ok.1 hc.found
  have other : g ≠ d := by
    rintro rfl
    obtain ⟨hid, hroot⟩ := h.tracked.owned hg
    exact hne owner howner (by rw [← hroot.1 hd, ← hid, hname])
  obtain ⟨acts, calls, -⟩ : Acts config module s s₁ ∧ _ := passArguments_acts hc hfree hp
  obtain ⟨h₁, kept₁⟩ := Freezes.acts hm only hd acts h
  have entered : Frozen module name d returns (s₁.entered ns g) :=
    ⟨h₁.tracked.enter hm calls, h₁.signature, h₁.type, fun hg => other (Option.some.inj hg)⟩
  obtain ⟨h₂, kept₂⟩ := henter rfl hb entered
  rw [State.resumed_types]
  refine ⟨⟨h.tracked.resume h₂.tracked hf, ?_, ?_, h.away⟩,
    fun callee hl ht => kept₂ callee hl (kept₁ callee hl ht)⟩
  · -- In the module the name that is bound is the name of the module.
    show ((Action.bind _ _ _).onEnv s₂.env).types.get? _ = _
    rw [Action.get?_bind, if_neg]
    · exact h₂.signature
    · intro hkey
      obtain ⟨hr, -⟩ := Prod.mk.inj hkey
      rw [h.tracked.framed.ns_eq (h.tracked.framed.function_eq hr.symm)] at howner
      cases Environment.owner_module howner
      exact hne _ (h.tracked.framed.ns_eq (h.tracked.framed.function_eq hr.symm) ▸ howner)
        (hkey.trans (by rw [← hr]))
  · rw [State.resumed_types]
    exact h₂.type

omit hm only hd hname in
/-- A call that looks the name up finds the signature. -/
theorem Frozen.found (h : Frozen module name d returns s) {enter : Function → Run Unit} {site : Site}
    {callee : Site} {args : List Expr} {keywords : List (Keyword Expr)} {t : State}
    (hn : s.Here module (.expr (.call site (.name callee name) args keywords)))
    (hr : visit config enter (.expr (.name callee name)) s = .ok () t)
    (ho : s.env.owner s.frame.ns name = .ok (some SymbolTable.root)) :
    LooksUp module name callee ∧ t.types.exprs.get? callee.index = some (.function returns) := by
  have framed := h.tracked.framed
  have congr : s.env.owner s.frame.ns name = Environment.owner { table := .build module } _ _ :=
    Environment.owner_congr framed.table _ _
  refine ⟨⟨s.frame, framed.frame, framed.placed.function, ⟨site, args, keywords, hn⟩,
    congr.symm.trans ho⟩, ?_⟩
  obtain ⟨type, hty, hf, rfl⟩ := visit_name hr
  obtain ⟨owner, howner, rfl⟩ := Environment.typeOf_ok.1 hty
  cases ho.symm.trans howner
  exact (IndexTable.get?_put_self _ hf).trans h.signature

/-- **While a name has a signature, an analysis keeps it.** -/
theorem visit_freezes {enter : Function → Run Unit} (he : Enters config module enter)
    (henter : ∀ {g s s' u}, s.frame.function = some g → enter g s = .ok u s' →
      Freezes module name d returns s s') {node : Node} {u : Unit} (hn : s.Here module node)
    (hr : visit config enter node s = .ok u s') : Freezes module name d returns s s' := by
  refine (visit_relates he (Q := Within (s.frame.body module)) Freezes.refl Freezes.trans id
    (fun hn hc => hn.part (mem_analyzed.1 hc).1 (mem_analyzed.1 hc).2) ?_ ?_ hn rfl hr).1
  · intro n a b hn hne ha hr
    have here : a.Here module n := by rwa [State.Here, ha]
    exact .acts hm only hd (conclude_acts here hne hr)
  · intro site func args keywords a t b c hn ha hfunc first ht hargs rest hb hr h
    obtain ⟨hft, kept⟩ := first h
    obtain ⟨hfb, kept'⟩ := rest hft
    obtain ⟨result, e, decision, fits, rfl⟩ := concludeCall_decision hr
    have herea : a.Here module (.expr (.call site func args keywords)) := by rwa [State.Here, ha]
    have here : b.Here module (.expr (.call site func args keywords)) := by rwa [State.Here, hb]
    have decided : Freezes module name d returns b e := by
      intro hfb
      cases decision with
      | client | method | signature | unknown => exact ⟨hfb, fun _ _ ht => ht⟩
      | skipped hg hns guard active =>
        exact Freezes.act hm only hd (.skipped ⟨⟨_, _, _, here⟩, hg, hns⟩ guard active) trivial hfb
      | @body callee id g ns s₁ s₂ hopen hg hns hfree hp hbody hfits =>
        refine hfb.body hm only hd hname henter ⟨⟨_, _, _, here⟩, hg, hns⟩ hfree hp hbody hfits ?_
        intro owner howner hkey
        obtain ⟨rfl, rfl⟩ := Prod.mk.inj hkey
        -- The call has looked the name up, and found the signature.
        have ho : a.env.owner a.frame.ns name = .ok (some SymbolTable.root) := by
          rw [ha, ← hb, Environment.owner_congr
            (h.tracked.framed.table.trans hfb.tracked.framed.table.symm)]
          exact howner
        obtain ⟨looks, found⟩ := h.found herea hfunc ho
        have undecided : Undecided (b.types.exprs.get? callee.index) := hopen
        rw [kept' callee looks found] at undecided
        exact undecided
    have here' : e.Here module (.expr (.call site func args keywords)) :=
      here.of_frame decision.frame_eq
    have cause : Cause config module e _ := .called here' decision.outcome
    exact first.trans (rest.trans (decided.trans (.act hm only hd cause fits))) h

theorem visitAll_freezes {enter : Function → Run Unit} (he : Enters config module enter)
    (henter : ∀ {g s s' u}, s.frame.function = some g → enter g s = .ok u s' →
      Freezes module name d returns s s') {stmts : List Stmt} {u : Unit}
    (hn : ∀ t ∈ stmts, s.Here module (.stmt t))
    (hr : visitAll config enter stmts s = .ok u s') : Freezes module name d returns s s' := by
  refine (forM_chain (P := fun t => t.frame = s.frame) Freezes.refl Freezes.trans ?_ rfl hr).1
  intro stmt hmem t t' _ ht hr
  have here := (hn stmt hmem).of_frame ht
  exact ⟨visit_freezes hm only hd hname he henter here hr,
    (visit_steps he here hr).frame_eq.trans ht⟩

theorem enterBody_freezes (bound : Nat) : ∀ {g s s' u}, s.frame.function = some g →
    enterBody config bound g s = .ok u s' → Freezes module name d returns s s' := by
  induction bound with
  | zero =>
    intro g s s' u _ hr
    cases hr
  | succ bound ih =>
    intro g s s' u hg hr
    refine visitAll_freezes hm only hd hname (enterBody_steps config module bound) ih
      (fun t ht => .stmt ?_) hr
    rw [Frame.body, hg]
    exact ht

end Kept

end Inference

end SdkUsage
