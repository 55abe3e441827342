/-
Chains that make a client and call a method of it at once, as in
`boto3.client('s3').list_buckets()`. Wherever such a chain stands in the
statements of a module after the import of the SDK, outside of definitions, the
method is reported.

The types of a chain are settled by its form alone, once the name at its root
stands for the SDK: this is `Chain`. `Calm` relates a moment of a run to a
later one: nothing in between makes the name stand for something else, and what
a chain was found to be it still is. So it does not matter what is evaluated or
called between the parts of a chain.
-/
import SdkUsage.Proofs.Analysis
import SdkUsage.Proofs.Grammar.Statement
import SdkUsage.Proofs.Inference.Frame

namespace SdkUsage

open SdkUsage.Tree SdkUsage.Inference

/-- An expression is a name. -/
def Tree.Expr.isName (name : String) : Expr → Bool
  | .name _ id => id = name
  | _ => false

/-- A statement gives a name something that inference follows, other than the
SDK itself: by an assignment, a `from` import or a definition. Loops, `with`
statements, deletions and the like bind names too, but leave what is known of
them as it is, so that nothing needs to be asked of them. -/
def Tree.Stmt.rebinds (name : String) : Stmt → Bool
  | .assign _ targets _ => targets.any (·.isName name)
  | .annAssign _ target _ (some _) => target.isName name
  | .importFrom _ _ _ names => names.any (·.boundName = name)
  | .functionDef d => d.name.text = name
  | _ => false

/-- The types of the expressions that begin with a name for the SDK, as far as
their form settles them. -/
inductive Tree.Expr.Chain (config : Config) (name : String) : Expr → Ty → Prop
  | handle {site} : Chain config name (.name site name) .moduleHandle
  | factory {site value attr} : Chain config name value .moduleHandle →
    attr.text = config.clientFactory → Chain config name (.member site value attr) .clientFactory
  | client {site func place service args keywords} : Chain config name func .clientFactory →
    Chain config name (.call site func (.str place service .plain :: args) keywords)
      (.serviceClient service)
  | method {site value attr service} : Chain config name value (.serviceClient service) →
    Chain config name (.member site value attr) (.methodRef service attr.text)
  | invocation {site func args keywords service method} :
    Chain config name func (.methodRef service method) →
    Chain config name (.call site func args keywords) (.invocation service method)

namespace Inference

variable {type : Ty} {e value func : Expr} {site : Site} {args : List Expr}
  {keywords : List (Keyword Expr)} {action : Action} {i : Nat} {config : Config}

/-- From one moment of a run to a later one, the name has not come to stand for
something else, and chains in the module have kept their types. -/
structure Calm (config : Config) (module : Module) (name : String) (since s : State) : Prop where
  framed : s.Framed module
  undefined : s.env.definitions.get? (SymbolTable.root, name) = none
  handle : s.env.types.get? (SymbolTable.root, name) = some .moduleHandle ∨
    s.env.types.get? (SymbolTable.root, name) = none ∧
      since.env.types.get? (SymbolTable.root, name) = none
  chain : ∀ {e type}, e.Chain config name type → Within module.body (.expr e) →
    s.types.ofExpr? e = some type ∨ s.types.ofExpr? e = none ∧
      (since.types.ofExpr? e = none ∨ since.env.types.get? (SymbolTable.root, name) = none)

namespace Calm

variable {config : Config} {module : Module} {name : String} {since s : State}

/-- Where the run has come to is as good a moment as the one it came from. -/
theorem now (h : Calm config module name since s) : Calm config module name s s where
  framed := h.framed
  undefined := h.undefined
  handle := h.handle.imp_right fun hn => ⟨hn.1, hn.1⟩
  chain := fun hc hw => (h.chain hc hw).imp_right fun hn => ⟨hn.1, .inl hn.1⟩

/-- What is analyzed under the number of an expression of the module is that
expression, and the run is in no function. -/
theorem same (h : Calm config module name since s) (hm : module.Numbered) {e' : Expr}
    (he : Within module.body (.expr e)) (he' : s.Here module (.expr e')) (hi : e.index = e'.index) :
    e = e' ∧ s.frame.function = none := by
  cases hf : s.frame.function with
  | none => exact ⟨hm.expr_eq he.mem_nodes (h.framed.placed.mem_nodes he') hi, rfl⟩
  | some d =>
    unfold State.Here Frame.body at he'
    rw [hf] at he'
    exact absurd hi (hm.expr_ne_of_hidden he (h.framed.placed.function d hf) he')

/-- In the module the type of a name is what is known under the module's
scope. -/
theorem typeOf_eq {env : Environment} {type : Option Ty}
    (h : env.typeOf .module name = .ok type) :
    type = env.types.get? (SymbolTable.root, name) := by
  obtain ⟨owner, ho, rfl⟩ := Environment.typeOf_ok.1 h
  cases Environment.owner_module ho
  rfl

/-! ## Writes to names -/

section Rebound

variable (hm : module.Numbered)
  (only : ∀ t, Within module.body (.stmt t) → t.rebinds name = false)

/-- What an environment that is written to in a scope knows of the name. -/
theorem handle_of_bind (h : Calm config module name since s) {env : Environment} {scope : Nat}
    {id : String} {type : Option Ty}
    (he : env.types.get? (SymbolTable.root, name) = s.env.types.get? (SymbolTable.root, name))
    (hb : scope = SymbolTable.root → id = name → type = some .moduleHandle) :
    ((Action.bind scope id type).onEnv env).types.get? (SymbolTable.root, name)
        = some .moduleHandle ∨
      ((Action.bind scope id type).onEnv env).types.get? (SymbolTable.root, name) = none ∧
        since.env.types.get? (SymbolTable.root, name) = none := by
  rw [Action.get?_bind]
  split
  · next hkey =>
    cases hkey
    exact .inl (hb rfl rfl)
  · rw [he]
    exact h.handle

include only in
theorem assigned_ne (h : Calm config module name since s) {id : String}
    (ha : s.Assigns module (.name site id) value) (hr : s.frame.ns.scope = SymbolTable.root) :
    id ≠ name := by
  rintro rfl
  have isName : (Expr.name site id).isName id = true := decide_eq_true rfl
  cases ha with
  | plain hn ht =>
    have rebinds := List.any_eq_true.2 ⟨_, ht, isName⟩
    cases (only _ (h.framed.within hr hn)).symm.trans rebinds
  | annotated hn => cases (only _ (h.framed.within hr hn)).symm.trans isName

include hm only in
theorem handle_act (h : Calm config module name since s) (hc : Cause config module s action) :
    (s.act action).env.types.get? (SymbolTable.root, name) = some .moduleHandle ∨
      (s.act action).env.types.get? (SymbolTable.root, name) = none ∧
        since.env.types.get? (SymbolTable.root, name) = none := by
  cases hc with
  | assigned ha hk =>
    exact h.handle_of_bind rfl fun hr hid => absurd hid (h.assigned_ne only ha hr)
  | importModule hn ha hname => exact h.handle_of_bind rfl fun _ _ => rfl
  | @importFactory site names a hn ha hname =>
    refine h.handle_of_bind rfl fun hr hid => ?_
    have rebinds : names.any (·.boundName = name) = true :=
      List.any_eq_true.2 ⟨a, ha, decide_eq_true hid⟩
    cases (only _ (h.framed.within hr hn)).symm.trans rebinds
  | argument hcalls _ _ _ =>
    exact h.handle_of_bind rfl fun hr _ => absurd hr (h.framed.of_calls hm hcalls).scope_ne_root
  | name | member | called | literal | target | returned | credited | defined | skipped =>
    exact h.handle

include only in
theorem undefined_act (h : Calm config module name since s) (hc : Cause config module s action) :
    (s.act action).env.definitions.get? (SymbolTable.root, name) = none := by
  cases hc with
  | @defined d hn =>
    rw [State.act_env, Action.get?_define]
    split
    · next hkey =>
      obtain ⟨hr, hname⟩ := Prod.mk.inj hkey
      have rebinds := decide_eq_true hname.symm
      cases (only _ (h.framed.within hr.symm hn)).symm.trans rebinds
    · exact h.undefined
  | @assigned _ _ _ type => cases type <;> exact h.undefined
  | _ => exact h.undefined

/-! ## Types of chains -/

omit only in
/-- A write to the table of expressions keeps chains if it gives a chain under
that number its type, or takes it away where it had none before. -/
theorem chain_of_put (h : Calm config module name since s) {value : Option Ty}
    (hi : i < s.types.exprs.size)
    (hw : ∀ {e type}, e.Chain config name type → Within module.body (.expr e) → e.index = i →
      value = some type ∨ value = none ∧ since.env.types.get? (SymbolTable.root, name) = none)
    (hc : e.Chain config name type) (he : Within module.body (.expr e)) :
    (s.types.exprs.put i value).get? e.index = some type ∨
      (s.types.exprs.put i value).get? e.index = none ∧ (since.types.ofExpr? e = none ∨
        since.env.types.get? (SymbolTable.root, name) = none) := by
  by_cases heq : e.index = i
  · subst heq
    rw [IndexTable.get?_put_self value hi]
    exact (hw hc he rfl).imp_right fun hn => ⟨hn.1, .inr hn.2⟩
  · rw [IndexTable.get?_put_other value heq]
    exact h.chain hc he

/-- A chain that has a type has the one that its form settles. -/
theorem type_eq (h : Calm config module name since s) {found : Ty} (hc : e.Chain config name type)
    (he : Within module.body (.expr e)) (hf : s.types.ofExpr? e = some found) : found = type := by
  rcases h.chain hc he with ht | ⟨ht, -⟩
  · cases ht.symm.trans hf
    rfl
  · cases ht.symm.trans hf

/-- What a chain is built on stands where it stands. -/
theorem within_member {attr : Ident} (h : Within module.body (.expr (.member site value attr))) :
    Within module.body (.expr value) :=
  h.part rfl (Node.mem_children.1 (by simp [Node.children, Expr.children]))

theorem within_call (h : Within module.body (.expr (.call site func args keywords))) :
    Within module.body (.expr func) :=
  h.part rfl (Node.mem_children.1 (by simp [Node.children, Expr.children]))

include hm only in
/-- A chain is given the type that its form settles, or loses it while the name
is unknown. -/
theorem annotated_chain (h : Calm config module name since s) {value : Option Ty}
    (hc : Cause config module s (.annotate i value)) (hchain : e.Chain config name type)
    (he : Within module.body (.expr e)) (hi : e.index = i) :
    value = some type ∨
      value = none ∧ since.env.types.get? (SymbolTable.root, name) = none := by
  cases hc with
  | name hn ht =>
    obtain ⟨rfl, hf⟩ := h.same hm he hn hi
    cases hchain
    rw [h.framed.ns_eq hf] at ht
    rw [typeOf_eq ht]
    exact h.handle
  | @member site value attr found hn ht =>
    obtain ⟨rfl, -⟩ := h.same hm he hn hi
    -- Without a type of the value the member would have none.
    cases hv : s.types.ofExpr? value with
    | none =>
      rw [hv] at ht
      cases ht
    | some found =>
      rw [hv] at ht
      cases hchain with
      | factory hvalue hattr =>
        cases h.type_eq hvalue (within_member he) hv
        rw [memberType, if_pos hattr] at ht
        exact .inl ht.symm
      | method hvalue =>
        cases h.type_eq hvalue (within_member he) hv
        exact .inl ht.symm
  | literal hn hl =>
    obtain ⟨rfl, -⟩ := h.same hm he hn hi
    cases hchain <;> cases hl
  | target ha hk =>
    obtain ⟨rfl, hf⟩ := h.same hm he ha.here hi
    cases hchain
    have hr : s.frame.ns.scope = SymbolTable.root := by
      rw [h.framed.ns_eq hf]
      rfl
    exact absurd rfl (h.assigned_ne only ha hr)

omit only in
include hm in
/-- A chain that is a call is found to be what its form settles. -/
theorem called_chain (h : Calm config module name since s) {callee : Option Ty} {found : Ty}
    (hc : Cause config module s (.call i callee (some found))) (hchain : e.Chain config name type)
    (he : Within module.body (.expr e)) (hi : e.index = i) : found = type := by
  cases hc with
  | called hn ho =>
    obtain ⟨rfl, -⟩ := h.same hm he hn hi
    generalize hresult : some found = result at ho
    cases hchain with
    | client hfunc =>
      cases ho with
      | client _ =>
        cases hresult
        rfl
      | method ht => cases h.type_eq hfunc (within_call he) ht
      | signature ht => cases h.type_eq hfunc (within_call he) ht
      | body => cases hfunc
      | nothing => cases hresult
    | invocation hfunc =>
      cases ho with
      | client ht => cases h.type_eq hfunc (within_call he) ht
      | method ht =>
        cases h.type_eq hfunc (within_call he) ht
        cases hresult
        rfl
      | signature ht => cases h.type_eq hfunc (within_call he) ht
      | body => cases hfunc
      | nothing => cases hresult

include hm only in
theorem act (h : Calm config module name since s) (hc : Cause config module s action)
    (hf : action.Fits s) : Calm config module name since (s.act action) := by
  refine ⟨(Steps.one hc hf).framed hm h.framed, h.undefined_act only hc, h.handle_act hm only hc,
    fun {e type} hchain he => ?_⟩
  cases action with
  | annotate i value =>
    exact h.chain_of_put hf
      (fun hchain he hi => h.annotated_chain hm only hc hchain he hi) hchain he
  | call i callee result =>
    cases result with
    | none => exact h.chain hchain he
    | some found =>
      refine h.chain_of_put hf (fun hchain he hi => .inl ?_) hchain he
      rw [h.called_chain hm hc hchain he hi]
  | record | credit | bind | define | skip => exact h.chain hchain he

end Rebound

end Calm

/-- **Whatever a run does, a chain keeps its type,** and the name stands for the
SDK as soon as it has once stood for it. -/
theorem Steps.calm {module : Module} {name : String} {since s s' : State} (hm : module.Numbered)
    (only : ∀ t, Within module.body (.stmt t) → t.rebinds name = false)
    (h : Steps config module s s') (hs : Calm config module name since s) :
    Calm config module name since s' := by
  refine h.keeps ?_ ?_ ?_ hs
  · intro t action ht hc hf
    exact ht.act hm only hc hf
  · intro t called args d ns ht hc _
    exact ⟨ht.framed.enter hm hc, ht.undefined, ht.handle, ht.chain⟩
  · intro t t' called args d ns ht hc ht' _ _
    refine ⟨ht.framed.resume ht'.framed called d, ?_, ?_, ?_⟩
    · have kept := ht'.undefined
      unfold State.resumed State.signature
      cases t'.types.stmts.get? d.site.index <;> exact kept
    · -- The name that is called stands for a function, so it is another one.
      refine ht'.handle_of_bind rfl fun hr hname => ?_
      subst hname
      obtain ⟨id, howner, hd⟩ := Environment.definition_ok.1 hc.found
      rw [ht.framed.ns_eq (ht.framed.function_eq hr)] at howner
      cases Environment.owner_module howner
      cases ht.undefined.symm.trans hd
    · rw [State.resumed_types]
      exact ht'.chain

namespace Calm

variable {config : Config} {module : Module} {name : String} {since s : State}

/-- Once the name stands for the SDK it keeps doing so. -/
theorem bound (h : Calm config module name since s)
    (hb : since.env.types.get? (SymbolTable.root, name) = some .moduleHandle) :
    s.env.types.get? (SymbolTable.root, name) = some .moduleHandle := by
  rcases h.handle with hs | ⟨-, hs⟩
  · exact hs
  · cases hb.symm.trans hs

/-- From then on a chain keeps its type once it has it. -/
theorem kept (h : Calm config module name since s)
    (hb : since.env.types.get? (SymbolTable.root, name) = some .moduleHandle)
    (hc : e.Chain config name type) (he : Within module.body (.expr e))
    (ht : since.types.ofExpr? e = some type) : s.types.ofExpr? e = some type := by
  rcases h.chain hc he with hs | ⟨-, hs | hs⟩
  · exact hs
  · cases ht.symm.trans hs
  · cases hb.symm.trans hs

end Calm

/-! ## Analyzing a chain -/

section Visit

variable {config : Config} {module : Module} {name : String} {enter : Function → Run Unit}
  {s s' : State} {u : Unit}

/-- An expression with parts is analyzed from its first part on. -/
theorem visit_first (henter : Enters config module enter) {node child : Node} {rest : List Node}
    (ha : node.analyzed = child :: rest) (hn : s.Here module node)
    (hr : visit config enter node s = .ok u s') :
    ∃ t t', visit config enter child s = .ok () t ∧ Steps config module t t' ∧
      conclude config enter node t' = .ok () s' := by
  have part : ∀ x ∈ child :: rest, s.Here module x := fun x hx => hn.part (ha ▸ hx)
  rw [visit] at hr
  obtain ⟨_, t', hparts, hr⟩ := bind_ok.1 hr
  rw [ha] at hparts
  obtain ⟨_, t, hfirst, hparts⟩ := bind_ok.1 hparts
  have first := visit_steps henter (part child List.mem_cons_self) hfirst
  refine ⟨t, t', hfirst, forEach_steps (fun x hx {_ _ _} hf => visit_steps henter ?_) hparts, hr⟩
  exact (part x (List.mem_cons_of_mem _ hx)).of_frame (hf.trans first.frame_eq)

/-- What a chain is built on still has its type when the other parts have been
analyzed. -/
theorem visit_value (henter : Enters config module enter) (hm : module.Numbered)
    (only : ∀ t, Within module.body (.stmt t) → t.rebinds name = false) {rest : List Node}
    (ha : (Node.expr e).analyzed = .expr value :: rest) (hc : value.Chain config name type)
    (hv : Within module.body (.expr value)) (here : s.Here module (.expr e))
    (hs : Calm config module name s s)
    (hb : s.env.types.get? (SymbolTable.root, name) = some .moduleHandle)
    (ih : ∀ {t u}, visit config enter (.expr value) s = .ok u t →
      t.types.ofExpr? value = some type) (hr : visit config enter (.expr e) s = .ok u s') :
    ∃ t, t.types.ofExpr? value = some type ∧ concludeExpr config enter e t = .ok () s' := by
  obtain ⟨t, t', hvisit, between, hconclude⟩ := visit_first henter ha here hr
  have hpart : s.Here module (.expr value) := here.part (ha ▸ List.mem_cons_self)
  have calm := (visit_steps henter hpart hvisit).calm hm only hs
  have calm' := between.calm hm only calm.now
  exact ⟨t', calm'.kept (calm.bound hb) hc hv (ih hvisit), hconclude⟩

/-- A member gets the type it has by that of its value. -/
theorem concludeMember_ok {attr : Ident}
    (ht : memberType config attr.text (s.types.ofExpr? value) = some type)
    (hr : concludeExpr config enter (.member site value attr) s = .ok u s') :
    s'.types.ofExpr? (.member site value attr) = some type := by
  simp only [concludeExpr, bind_ok, exprType_ok] at hr
  obtain ⟨_, _, ⟨rfl, rfl⟩, hr⟩ := hr
  rw [ht] at hr
  obtain ⟨hf, rfl⟩ := (annotate_does _ _).1 hr
  exact IndexTable.get?_put_self _ hf

/-- A call gets the type it is found to have. -/
theorem concludeCall_ok (hc : callType config enter func args keywords s = .ok (some type) s)
    (hr : concludeExpr config enter (.call site func args keywords) s = .ok u s') :
    s'.types.ofExpr? (.call site func args keywords) = some type := by
  simp only [concludeExpr, bind_ok, exprType_ok, note_ok] at hr
  obtain ⟨_, _, ⟨-, rfl⟩, result, t, hcall, _, _, rfl, hr⟩ := hr
  cases hc.symm.trans hcall
  obtain ⟨hf, rfl⟩ := (annotate_does _ _).1 hr
  exact IndexTable.get?_put_self _ hf

theorem callType_client (ht : s.types.ofExpr? func = some .clientFactory) :
    callType config enter func args keywords s = .ok (clientType s.types args keywords) s := by
  refine bind_ok.2 ⟨s, s, rfl, ?_⟩
  rw [ht]
  rfl

theorem callType_method {service method : String}
    (ht : s.types.ofExpr? func = some (.methodRef service method)) :
    callType config enter func args keywords s = .ok (some (.invocation service method)) s := by
  refine bind_ok.2 ⟨s, s, rfl, ?_⟩
  rw [ht]
  rfl

/-- **A chain that is analyzed gets the type that its form settles.** -/
theorem visit_chain (henter : Enters config module enter) (hm : module.Numbered)
    (only : ∀ t, Within module.body (.stmt t) → t.rebinds name = false)
    (hc : e.Chain config name type) (he : Within module.body (.expr e))
    (hf : s.frame.function = none) (hs : Calm config module name s s)
    (hb : s.env.types.get? (SymbolTable.root, name) = some .moduleHandle)
    (hr : visit config enter (.expr e) s = .ok u s') : s'.types.ofExpr? e = some type := by
  have here : ∀ {e}, Within module.body (.expr e) → s.Here module (.expr e) :=
    (State.here_iff hf).2
  induction hc generalizing s' u with
  | @handle site =>
    rw [visit] at hr
    obtain ⟨_, _, hparts, hr⟩ := bind_ok.1 hr
    obtain ⟨-, rfl⟩ := pure_ok.1 hparts
    simp only [conclude, concludeExpr, bind_ok, ask_ok] at hr
    obtain ⟨found, _, ⟨ht, rfl⟩, hr⟩ := hr
    rw [hs.framed.ns_eq hf] at ht
    obtain ⟨hfits, rfl⟩ := (annotate_does _ _).1 hr
    refine (IndexTable.get?_put_self _ hfits).trans ?_
    rw [Calm.typeOf_eq ht, hb]
  | @factory site value attr hvalue hattr ih =>
    have hv := Calm.within_member he
    obtain ⟨t, ht, hr⟩ := visit_value henter hm only rfl hvalue hv (here he) hs hb (ih hv) hr
    refine concludeMember_ok ?_ hr
    rw [ht, memberType, if_pos hattr]
  | @client site func place service args keywords hfunc ih =>
    have hv := Calm.within_call he
    obtain ⟨t, ht, hr⟩ := visit_value henter hm only rfl hfunc hv (here he) hs hb (ih hv) hr
    exact concludeCall_ok (callType_client ht) hr
  | @method site value attr service hvalue ih =>
    have hv := Calm.within_member he
    obtain ⟨t, ht, hr⟩ := visit_value henter hm only rfl hvalue hv (here he) hs hb (ih hv) hr
    refine concludeMember_ok ?_ hr
    rw [ht, memberType]
  | @invocation site func args keywords service method hfunc ih =>
    have hv := Calm.within_call he
    obtain ⟨t, ht, hr⟩ := visit_value henter hm only rfl hfunc hv (here he) hs hb (ih hv) hr
    exact concludeCall_ok (callType_method ht) hr

/-- After an import of the SDK the name it binds stands for the SDK. -/
theorem visit_import {names : List Alias} {a : Alias} (hm : module.Numbered)
    (only : ∀ t, Within module.body (.stmt t) → t.rebinds a.boundName = false) (ha : a ∈ names)
    (hname : a.name = config.sdkModule) (hf : s.frame.function = none)
    (hn : s.Here module (.stmt (.importModules site names)))
    (hs : Calm config module a.boundName s s)
    (hr : visit config enter (.stmt (.importModules site names)) s = .ok u s') :
    s'.env.types.get? (SymbolTable.root, a.boundName) = some .moduleHandle := by
  rw [visit] at hr
  obtain ⟨_, _, hparts, hr⟩ := bind_ok.1 hr
  obtain ⟨-, rfl⟩ := pure_ok.1 hparts
  simp only [conclude, concludeStmt, bindImports, forM_eq_forEach] at hr
  have step : ∀ b ∈ names.filter (·.name = config.sdkModule), ∀ {t t' : State} {u : Unit},
      t.frame = s.frame → bindName b.boundName (some .moduleHandle) t = .ok u t' →
      Steps config module t t' := by
    intro b hb t t' _ ht hr
    rw [List.mem_filter, decide_eq_true_eq] at hb
    obtain ⟨hfits, rfl⟩ := bindName_ok.1 hr
    exact .one (.importModule (hn.of_frame ht) hb.1 hb.2) hfits
  have hmem : a ∈ names.filter (·.name = config.sdkModule) := by simp [ha, hname]
  obtain ⟨t, t', before, hbind, after⟩ := forEach_passes step hmem hr
  have calm := before.calm hm only hs
  have calm' := (step a hmem before.frame_eq hbind).calm hm only calm
  -- The name is bound here, and what follows leaves it so.
  refine (after.calm hm only calm'.now).bound ?_
  obtain ⟨-, rfl⟩ := bindName_ok.1 hbind
  rw [calm.framed.ns_eq (before.frame_eq ▸ hf)]
  exact SortedMap.get?_insert_self ..

end Visit

theorem Calm.start (config : Config) (module : Module) (name : String) :
    Calm config module name (Analysis.initial module).atModule
      (Analysis.initial module).atModule where
  framed := ⟨State.placed_start module _ _ _, rfl, rfl⟩
  undefined := rfl
  handle := .inr ⟨rfl, rfl⟩
  chain := fun _ _ => by
    have none := IndexTable.get?_ofSize (α := Ty) module.expressions
    exact .inr ⟨none _, .inl (none _)⟩

theorem visitAll_append {enter : Function → Run Unit} {as bs : List Stmt} {s s' : State} {u : Unit}
    (hr : visitAll config enter (as ++ bs) s = .ok u s') :
    ∃ t, visitAll config enter as s = .ok () t ∧ visitAll config enter bs t = .ok u s' := by
  induction as generalizing s with
  | nil => exact ⟨s, rfl, hr⟩
  | cons a as ih =>
    obtain ⟨_, t, ha, hr⟩ := bind_ok.1 hr
    obtain ⟨t', has, hbs⟩ := ih hr
    exact ⟨t', bind_ok.2 ⟨_, t, ha, has⟩, hbs⟩

/-- **A chain after the import of the SDK has its type in the end.** -/
theorem infer_chain {module : Module} {state : State} {before after : List Stmt}
    {names : List Alias} {a : Alias} (hm : module.Numbered)
    (hi : Analysis.infer config module = .ok state)
    (hbody : module.body = before ++ .importModules site names :: after) (ha : a ∈ names)
    (hname : a.name = config.sdkModule)
    (only : ∀ t, Within module.body (.stmt t) → t.rebinds a.boundName = false)
    (he : Within after (.expr e)) (hc : e.Chain config a.boundName type) :
    state.types.ofExpr? e = some type := by
  obtain ⟨u, hr⟩ := Analysis.infer_ok.1 hi
  obtain ⟨_, _, hstart, hr⟩ := bind_ok.1 hr
  cases hstart
  change visitAll config _ module.body (Analysis.initial module).atModule = _ at hr
  have henter : Enters config module (enterBody config (nestingBound module)) :=
    enterBody_steps config module _
  generalize enterBody config (nestingBound module) = enter at hr henter
  have here : ∀ {s : State}, s.frame.function = none → ∀ t ∈ module.body,
      s.Here module (.stmt t) :=
    fun hf t ht => (State.here_iff hf).2 (.stmt ht)
  have inBody : ∀ t ∈ after, t ∈ module.body := fun t ht => by simp [hbody, ht]
  have atImport : .importModules site names ∈ module.body := by simp [hbody]
  -- The statements before the import, the import, and what follows it.
  rw [hbody] at hr
  obtain ⟨s₁, hbefore, hr⟩ := visitAll_append hr
  obtain ⟨_, s₂, himport, hafter⟩ := bind_ok.1 hr
  have first := visitAll_steps henter (fun t ht => here rfl t (by simp [hbody, ht])) hbefore
  have calm₁ := first.calm hm only (Calm.start config module a.boundName)
  have none₁ : s₁.frame.function = none := by rw [first.frame_eq]; rfl
  have hn := here none₁ _ atImport
  have bound := visit_import hm only ha hname none₁ hn calm₁.now himport
  have second := visit_steps henter hn himport
  have calm₂ := second.calm hm only calm₁
  have none₂ : s₂.frame.function = none := second.frame_eq ▸ none₁
  obtain ⟨s₃, s₄, between, hvisit, rest⟩ :=
    visitAll_passes henter (fun t ht => here none₂ t (inBody t ht)) he hafter
  have hw : Within module.body (.expr e) := he.mono inBody
  have calm₃ := between.calm hm only calm₂.now
  have none₃ : s₃.frame.function = none := between.frame_eq ▸ none₂
  have found := visit_chain henter hm only hc hw none₃ calm₃.now (calm₃.bound bound) hvisit
  have calm₄ := (visit_steps henter ((State.here_iff none₃).2 hw) hvisit).calm hm only calm₃
  exact (rest.calm hm only calm₄.now).kept (calm₄.bound bound) hc hw found

end Inference

/-- **A method that is called on a client where the client is made is
reported.** The chain may stand at any depth in a statement after the import of
the SDK, but in no function, class or lambda. -/
theorem oneShot_reported {config : Config} {source : Source} {module : Module} {calls : CallMap}
    {before after : List Stmt} {site : Site} {names : List Alias} {a : Alias}
    {outer memberSite inner factorySite nameSite literalSite : Site} {factory method : Ident}
    {service : String} {args args' : List Expr} {keywords keywords' : List (Keyword Expr)}
    (hp : parse source = .ok module) (h : analyze config false source = .ok calls)
    (hbody : module.body = before ++ .importModules site names :: after) (ha : a ∈ names)
    (hname : a.name = config.sdkModule)
    (only : ∀ t, Within module.body (.stmt t) → t.rebinds a.boundName = false)
    (hfactory : factory.text = config.clientFactory)
    (hchain : Within after (.expr (.call outer
      (.member memberSite
        (.call inner (.member factorySite (.name nameSite a.boundName) factory)
          (.str literalSite service .plain :: args) keywords)
        method)
      args' keywords'))) :
    method.text ∈ calls.methods service := by
  obtain ⟨_, state, hmodule, hi, rfl⟩ := analyze_ok.1 h
  obtain ⟨_, hparsed, rfl⟩ := Analysis.parse_ok.1 hmodule
  cases hp.symm.trans hparsed
  have found := infer_chain (numbered_of_parse hp) hi hbody ha hname only hchain
    (.invocation (.method (.client (.factory .handle hfactory))))
  refine CallMap.mem_methods_collect.2 ⟨_, Within.mem_nodes (hchain.mono fun t ht => ?_), found⟩
  simp [hbody, ht]

/-- A chain in a list in an argument in a loop. The function that is called
around it and in it has a value of its own under the name of the SDK. -/
def loopedChain : Source where
  file := "main.py"
  text := "import boto3 as b\ndef f(x):\n    b = x\n"
    ++ "for i in f(1):\n    f([b.client('s3', k=f(i)).m()])\n"

/-- A node that leaves a name alone. -/
def Tree.Node.spares (name : String) : Node → Bool
  | .stmt t => !t.rebinds name
  | .expr _ => true

/-- Whether statements rebind a name can be seen by going through them. -/
theorem rebinds_of_spares {stmts : List Stmt} {name : String}
    (h : ((stmtNodes stmts).flatMap Node.own).all (·.spares name) = true) (t : Stmt)
    (ht : Within stmts (.stmt t)) : t.rebinds name = false := by
  have spares := List.all_eq_true.1 h _ ht.mem_own
  simpa only [Node.spares, Bool.not_eq_true'] using spares

/-- The shape of the module that `loopedChain` holds. -/
def Tree.Module.loopsChain (module : Module) : Bool :=
  match module.body with
  | [.importModules _ [a], _, .forLoop _ _ _ [.expr _ (.call _ _ [.list _
      [.call _ (.member _ (.call _ (.member _ (.name _ name) factory)
        (.str _ service .plain :: _) _) method) _ _]] _)] [] _] =>
    decide (a.name = "boto3" ∧ a.boundName = "b" ∧ name = "b" ∧ factory.text = "client" ∧
      service = "s3" ∧ method.text = "m")
  | _ => false

theorem loopedChain_reported :
    ∃ module calls, parse loopedChain = .ok module ∧ analyze {} false loopedChain = .ok calls ∧
      "m" ∈ calls.methods "s3" := by
  have succeeds : (analyze {} false loopedChain).isOk = true := by decide +kernel
  obtain ⟨calls, h⟩ := exists_ok succeeds
  obtain ⟨_, _, hmodule, _, _⟩ := analyze_ok.1 h
  obtain ⟨module, hp, _⟩ := Analysis.parse_ok.1 hmodule
  have shape : (parse loopedChain).toOption.any (fun module => module.loopsChain &&
      ((stmtNodes module.body).flatMap Node.own).all (·.spares "b")) = true := by decide +kernel
  simp only [hp, Except.toOption, Option.any_some, Bool.and_eq_true] at shape
  obtain ⟨shape, spared⟩ := shape
  unfold Module.loopsChain at shape
  split at shape
  · next i a d l target iter x y f z s₁ s₂ s₃ s₄ s₅ name factory s₆ service args ks method args'
      ks' ks'' isAsync hbody =>
    obtain ⟨hname, hbound, rfl, hfactory, rfl, hmethod⟩ := of_decide_eq_true shape
    have only := rebinds_of_spares spared
    rw [← hbound] at only hbody
    -- From the loop to the chain: a statement, its value, an argument, and an item of a list.
    have loop : Within [d, .forLoop l target iter [.expr x (.call y f [.list z [.call s₁ (.member s₂
        (.call s₃ (.member s₄ (.name s₅ a.boundName) factory) (.str s₆ "s3" .plain :: args) ks)
        method) args' ks']] ks'')] [] isAsync] _ :=
      .stmt (List.mem_cons_of_mem d List.mem_cons_self)
    have value := (loop.part rfl (.ofStmt (.forBody List.mem_cons_self))).part rfl (.ofStmt .value)
    have item := value.part rfl (.ofExpr (.argument List.mem_cons_self))
    have chain := item.part rfl (.ofExpr (.listItem List.mem_cons_self))
    exact ⟨module, calls, hp, h, hmethod ▸ oneShot_reported hp h
      (hbody.trans (List.nil_append _).symm) List.mem_cons_self hname only hfactory chain⟩
  · cases shape

end SdkUsage
