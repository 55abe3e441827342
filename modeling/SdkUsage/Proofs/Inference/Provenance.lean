/-
No type comes from nowhere. A type that inference has for a node or a name is
`Grounded` in the module: the SDK is imported, the service was written as a
literal, the method as a member, and an invocation was produced at a call of
that method. Types are passed on through names, parameters, assignments and
returns without being looked at, so that what has to be shown is that the few
places that make one have what it needs.
-/
import SdkUsage.Proofs.Analysis
import SdkUsage.Proofs.Inference.Place

namespace SdkUsage

open SdkUsage.Tree SdkUsage.Inference

namespace Tree.Module

/-- A module imports the SDK: the module of it, or the client factory from it. -/
inductive ImportsSdk (config : Config) (module : Module) : Prop
  | module {site names a} : .stmt (.importModules site names) ∈ module.nodes → a ∈ names →
    a.name = config.sdkModule → ImportsSdk config module
  | factory {site names a} :
    .stmt (.importFrom site (some config.sdkModule) 0 names) ∈ module.nodes → a ∈ names →
    a.name = config.clientFactory → ImportsSdk config module

/-- A text stands in a module as a plain literal. -/
def HasLiteral (module : Module) (text : String) : Prop :=
  ∃ site, .expr (.str site text .plain) ∈ module.nodes

/-- A name stands in a module as a member of something. -/
def HasMember (module : Module) (name : String) : Prop :=
  ∃ site value span, .expr (.member site value ⟨name, span⟩) ∈ module.nodes

end Tree.Module

namespace Inference

/-- At a call of a module what is called was known to be a method, and the call
took the type of its invocation. -/
def Invoked (module : Module) (trace : List Event) (service method : String) : Prop :=
  ∃ site func args keywords, .expr (.call site func args keywords) ∈ module.nodes ∧
    .called site.index (some (.methodRef service method)) (some (.invocation service method)) ∈
      trace

/-- What a module has to hold, and what has to have happened, for a type to be
there. -/
def Grounded (config : Config) (module : Module) (trace : List Event) : Ty → Prop
  | .moduleHandle => module.ImportsSdk config
  | .clientFactory => module.ImportsSdk config
  | .serviceClient service => module.ImportsSdk config ∧ module.HasLiteral service
  | .methodRef service method =>
    module.ImportsSdk config ∧ module.HasLiteral service ∧ module.HasMember method
  | .invocation service method =>
    module.ImportsSdk config ∧ module.HasLiteral service ∧ module.HasMember method ∧
      Invoked module trace service method
  | .function returns => Grounded config module trace returns
  | .stringLiteral text => module.HasLiteral text

variable {config : Config} {module : Module} {trace : List Event} {type : Ty} {site : Site}
  {action : Action}

/-- What happened stays so. -/
theorem Grounded.later (h : Grounded config module trace type) (events : List Event) :
    Grounded config module (events ++ trace) type := by
  induction type with
  | invocation service method =>
    obtain ⟨hi, hl, hm, site, func, args, keywords, hn, hc⟩ := h
    exact ⟨hi, hl, hm, site, func, args, keywords, hn, List.mem_append_right _ hc⟩
  | function returns ih => exact ih h
  | _ => exact h

/-! ## The places that make types -/

theorem grounded_member {value : Expr} {attr : Ident} {of : Option Ty}
    (hn : .expr (.member site value attr) ∈ module.nodes)
    (ho : ∀ t ∈ of, Grounded config module trace t)
    (h : memberType config attr.text of = some type) : Grounded config module trace type := by
  unfold memberType at h
  split at h
  · split at h
    · cases h
      exact ho .moduleHandle rfl
    · cases h
  · next service =>
    cases h
    obtain ⟨hi, hl⟩ := ho (.serviceClient service) rfl
    exact ⟨hi, hl, site, value, attr.span, hn⟩
  · cases h

/-- A text that an argument is known to be stands in the module. -/
theorem hasLiteral_of_knownText {types : Annotations} {e : Expr} {text : String}
    (hn : .expr e ∈ module.nodes)
    (hg : ∀ t, types.ofExpr? e = some t → Grounded config module trace t)
    (h : knownText? types e = some text) : module.HasLiteral text := by
  unfold knownText? at h
  rcases Option.or_eq_some_iff.1 h with hl | ⟨-, hb⟩
  · unfold Expr.literal? at hl
    split at hl
    · cases hl
      exact ⟨_, hn⟩
    · cases hl
  · obtain ⟨t, ht, hl⟩ := Option.bind_eq_some_iff.1 hb
    have grounded := hg t ht
    cases t <;> cases hl
    exact grounded

/-- The argument that names the service is a part of the call. -/
theorem part_of_serviceArgument {func e : Expr} {args : List Expr} {keywords : List (Keyword Expr)}
    (h : serviceArgument? args keywords = some e) :
    Expr.Part e (.call site func args keywords) := by
  unfold serviceArgument? at h
  split at h
  · cases h
    exact .argument List.mem_cons_self
  · obtain ⟨k, hk, rfl⟩ := Option.map_eq_some_iff.1 h
    exact .keyword (List.mem_of_find?_eq_some hk)

theorem grounded_outcome {s : State} {func : Expr} {args : List Expr}
    {keywords : List (Keyword Expr)} {callee : Option Ty}
    (hn : .expr (.call site func args keywords) ∈ module.nodes)
    (hk : ∀ t, s.Known t → Grounded config module s.trace t)
    (h : Outcome s args keywords func callee (some type)) :
    Grounded config module
      ((Action.call site.index callee (some type)).events ++ s.trace) type := by
  have ofExpr : ∀ {e t}, s.types.ofExpr? e = some t → Grounded config module s.trace t :=
    fun ht => hk _ (.expr ht)
  generalize hr : some type = result at h
  cases h with
  | client hf =>
    -- The service is a text that stands in the module.
    obtain ⟨service, hs, rfl⟩ := Option.map_eq_some_iff.1 hr.symm
    obtain ⟨arg, ha, ht⟩ := Option.bind_eq_some_iff.1 hs
    have part : .expr arg ∈ (Node.expr (.call site func args keywords)).children :=
      expr_mem_exprNodes.2 (Expr.mem_children.2 (part_of_serviceArgument ha))
    have node := Module.mem_nodes_of_mem_preorder hn
      (Node.mem_preorder_of_mem_children part (Node.mem_preorder_self _))
    exact ⟨ofExpr hf, hasLiteral_of_knownText node (fun t => ofExpr) ht⟩
  | method hf =>
    cases hr
    obtain ⟨hi, hl, hm⟩ := ofExpr hf
    exact ⟨hi, hl, hm, site, func, args, keywords, hn, by simp [Action.events]⟩
  | signature hf =>
    cases hr
    exact Grounded.later (ofExpr hf : Grounded config module s.trace (.function type)) _
  | @body _ _ _ d =>
    cases hd : s.types.stmts.get? d with
    | none =>
      rw [hd] at hr
      cases hr
    | some t =>
      rw [hd] at hr
      cases t <;> cases hr
      exact Grounded.later (hk _ (.stmt hd) : Grounded config module s.trace (.function type)) _
  | nothing => cases hr

/-! ## Runs -/

/-- Everything that is known is grounded. -/
structure State.Grounded (config : Config) (module : Module) (s : State) : Prop where
  placed : s.Placed module
  known : ∀ t, s.Known t → Inference.Grounded config module s.trace t

namespace State.Grounded

variable {s : State}

/-- Going somewhere else in the program makes nothing known. -/
theorem move (h : s.Grounded config module) (events : List Event) {s' : State}
    (hp : s'.Placed module) (henv : s'.env = s.env) (htypes : s'.types = s.types)
    (htrace : s'.trace = events ++ s.trace) : s'.Grounded config module := by
  refine ⟨hp, fun t ht => ?_⟩
  rw [htrace]
  exact (h.known t (ht.of_eq henv htypes)).later events

/-- An action keeps everything grounded if what it writes is. -/
theorem write (h : s.Grounded config module) (hp : (s.act action).Placed module)
    (hw : ∀ t, action.type? = some t →
      Inference.Grounded config module (action.events ++ s.trace) t) :
    (s.act action).Grounded config module := by
  refine ⟨hp, fun t ht => ?_⟩
  rcases ht.of_act with ht | ht
  · exact (h.known t ht).later _
  · exact hw t ht

/-- The type that an action writes is grounded. -/
theorem written (h : s.Grounded config module) (hc : Cause config module s action)
    (ht : action.type? = some type) :
    Inference.Grounded config module (action.events ++ s.trace) type := by
  have known : ∀ {t}, s.Known t →
      Inference.Grounded config module (action.events ++ s.trace) t :=
    fun hk => (h.known _ hk).later _
  have ofExpr : ∀ {e t}, s.types.ofExpr? e = some t → Inference.Grounded config module s.trace t :=
    fun ht => h.known _ (.expr ht)
  cases hc with
  | name _ hty =>
    obtain ⟨owner, -, rfl⟩ := Environment.typeOf_ok.1 hty
    obtain ⟨id, -, hb⟩ := Option.bind_eq_some_iff.1 ht
    exact known (.name hb)
  | member hn hm =>
    cases ht
    exact (grounded_member (h.placed.mem_nodes hn) (fun t ht => ofExpr ht) hm).later _
  | called hn ho =>
    cases ht
    exact grounded_outcome (h.placed.mem_nodes hn) h.known ho
  | literal hn hl =>
    cases ht
    have text : knownText? s.types _ = some _ := Option.or_eq_some_iff.2 (.inl hl)
    exact hasLiteral_of_knownText (h.placed.mem_nodes hn) (fun t => ofExpr) text
  | assigned _ hk => exact known (hk _ ht)
  | target _ hk => exact known (hk _ ht)
  | importModule hn ha hm =>
    cases ht
    exact .module (h.placed.mem_nodes hn) ha hm
  | importFactory hn ha hm =>
    cases ht
    exact .factory (h.placed.mem_nodes hn) ha hm
  | returned _ hv =>
    cases ht
    exact known (.expr hv)
  | credited _ hv _ =>
    cases ht
    have returned := ofExpr hv
    exact returned.later _
  | defined _ => cases ht
  | skipped _ _ _ => cases ht
  | argument _ _ _ hv =>
    cases ht
    exact known (.expr hv)

theorem act (h : s.Grounded config module) (hc : Cause config module s action) :
    (s.act action).Grounded config module :=
  h.write (h.placed.act hc) fun _ => h.written hc

end State.Grounded

/-- **Whatever a run knows is grounded in the module.** -/
theorem Steps.grounded {s s' : State} (h : Steps config module s s')
    (hs : s.Grounded config module) : s'.Grounded config module := by
  refine h.keeps ?_ ?_ ?_ hs
  · intro t action ht hc _
    exact ht.act hc
  · intro t name args d ns ht hc _
    exact ht.move [_] (ht.placed.enter (ht.placed.of_calls hc) ns) rfl rfl rfl
  · intro t t' name args d ns ht hc ht' _ _
    -- The caller binds the name to a type that the body left.
    have left : (t'.left t.frame d).Grounded config module :=
      ht'.move [_] ⟨ht.placed.function, ht.placed.active, ht'.placed.definitions⟩ rfl rfl rfl
    refine left.write (ht.placed.resume ht'.placed name d) fun ty hty => ?_
    exact (left.known ty (.stmt hty)).later _

theorem State.grounded_start (config : Config) (module : Module) :
    (Analysis.initial module).atModule.Grounded config module := by
  refine ⟨State.placed_start module _ _ _, fun t ht => ?_⟩
  -- Nothing is known.
  cases ht with
  | expr h =>
    rw [show (Analysis.initial module).atModule.types.exprs = .ofSize module.expressions from rfl,
      IndexTable.get?_ofSize] at h
    cases h
  | stmt h =>
    rw [show (Analysis.initial module).atModule.types.stmts = .ofSize module.statements from rfl,
      IndexTable.get?_ofSize] at h
    cases h
  | name h => cases h

end Inference

/-- **Nothing is made up.** A method that is reported for a source stands in it
as a member, its service as a plain literal, the SDK is imported, and at some
moment of the run a call was found to call this method. -/
theorem reported_grounded {config : Config} {source : Source} {service method : String}
    (h : Reports config false source service method) :
    ∃ module state, parse source = .ok module ∧ Analysis.infer config module = .ok state ∧
      module.ImportsSdk config ∧ module.HasLiteral service ∧ module.HasMember method ∧
      Invoked module state.trace service method := by
  obtain ⟨calls, hc, hm⟩ := h
  obtain ⟨module, state, hp, hi, rfl⟩ := analyze_ok.1 hc
  obtain ⟨_, hp, rfl⟩ := Analysis.parse_ok.1 hp
  refine ⟨module, state, hp, hi, ?_⟩
  obtain ⟨node, -, ht⟩ := CallMap.mem_methods_collect.1 hm
  have grounded := (Analysis.steps_of_infer hi).grounded (State.grounded_start config module)
  have known : state.Known (.invocation service method) := by
    cases node with
    | expr e => exact .expr ht
    | stmt t => exact .stmt ht
  exact grounded.known _ known

/-- A client that one function makes and another is given. -/
def passedClient : Source where
  file := "main.py"
  text := "import boto3 as sdk\ndef make(name):\n    return sdk.client(name)\n"
    ++ "def use(c):\n    put = c.put_object\n    put(Body=1)\nkind = 's3'\nuse(make(kind))\n"

theorem passedClient_grounded :
    Reports {} false passedClient "s3" "put_object" ∧
    ∃ module state, parse passedClient = .ok module ∧ Analysis.infer {} module = .ok state ∧
      module.ImportsSdk {} ∧ module.HasLiteral "s3" ∧ module.HasMember "put_object" ∧
      Invoked module state.trace "s3" "put_object" :=
  have reported : Reports {} false passedClient "s3" "put_object" := by decide +kernel
  ⟨reported, reported_grounded reported⟩

end SdkUsage
