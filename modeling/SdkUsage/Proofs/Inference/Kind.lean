/-
Which nodes get types, and which types they get, at every moment of any number of runs over a
module.

`Node.Carries` says which types a node of each form can carry. Every event of a run is about a node
that a run can come to and gives it a type that it can carry; only names lose a type. So what is
skipped stays without types, and what is not a name keeps the last type it got.
-/
import SdkUsage.Proofs.Inference.Guard
import SdkUsage.Proofs.Inference.Record
import SdkUsage.Proofs.Numbers
import SdkUsage.Proofs.Tree.Skipped

namespace SdkUsage

open SdkUsage.Tree SdkUsage.Inference

namespace Tree

/-- The types that a node can carry. A plain string is a literal of its own value, a member is the
client factory by its name or a method of a client by its own name, and a function has the type of
functions. Names, calls and `return` take any type, and other nodes none. -/
def Node.Carries (config : Config) : Node → Ty → Prop
  | .expr (.name ..), _ => True
  | .expr (.call ..), _ => True
  | .expr (.str _ value kind), type => kind = .plain ∧ type = .stringLiteral value
  | .expr (.member _ _ attr), type =>
    (type = .clientFactory ∧ attr.text = config.clientFactory) ∨
      ∃ service, type = .methodRef service attr.text
  | .stmt (.returning ..), _ => True
  | .stmt (.functionDef _), type => ∃ returns, type = .function returns
  | _, _ => False

/-- Whether a node is a member or a call. -/
def Node.isAccess : Node → Bool
  | .expr (.member ..) | .expr (.call ..) => true
  | _ => false

theorem Node.carries_literal {config : Config} {e : Expr} {text : String}
    (h : e.literal? = some text) : (Node.expr e).Carries config (.stringLiteral text) := by
  unfold Expr.literal? at h
  split at h
  · cases h
    exact ⟨rfl, rfl⟩
  · cases h

theorem Node.carries_member {config : Config} {site : Site} {value : Expr} {attr : Ident}
    {owner : Option Ty} {type : Ty} (h : memberType config attr.text owner = some type) :
    (Node.expr (.member site value attr)).Carries config type := by
  unfold memberType at h
  split at h
  · split at h
    · next hattr =>
      cases h
      exact .inl ⟨rfl, hattr⟩
    · cases h
  · cases h
    exact .inr ⟨_, rfl⟩
  · cases h

end Tree

namespace Inference

variable {config : Config} {module : Module} {s : State}

/-! ## Events -/

/-- An event is about a node that a run can come to. It gives the node a type that it can carry,
or takes the type from a name. -/
def Event.Proper (config : Config) (module : Module) : Event → Prop
  | .annotated i type => ∃ e, Reached module (.expr e) ∧ e.index = i ∧
    (∀ t ∈ type, (Node.expr e).Carries config t) ∧ (type = none → ∃ site id, e = .name site id)
  | .returned i type | .credited i type =>
    ∃ t, Reached module (.stmt t) ∧ t.index = i ∧ (Node.stmt t).Carries config type
  | _ => True

/-- All events so far are proper, and so are those to come: the functions that are known are ones
that a run can come to. -/
structure State.Orderly (config : Config) (module : Module) (s : State) : Prop where
  function : ∀ d ∈ s.frame.function, Reached module (.stmt (.functionDef d))
  definitions : ∀ key d, s.env.definitions.get? key = some d →
    Reached module (.stmt (.functionDef d))
  events : ∀ event ∈ s.trace, event.Proper config module
  recorded : s.Recorded

namespace State.Orderly

theorem reached (h : s.Orderly config module) {n : Node} (hn : s.Here module n) :
    Reached module n := by
  unfold State.Here Frame.body at hn
  split at hn
  · next d hd => exact (h.function d hd).of_body hn
  · exact .of_within hn

/-- What causes an action makes its events proper. -/
theorem events_of_cause (h : s.Orderly config module) {action : Action}
    (hc : Cause config module s action) : ∀ event ∈ action.events, event.Proper config module := by
  intro event he
  cases hc with
  | name hn _ =>
    cases List.mem_singleton.1 he
    exact ⟨_, h.reached hn, rfl, fun _ _ => trivial, fun _ => ⟨_, _, rfl⟩⟩
  | member hn ht =>
    cases List.mem_singleton.1 he
    refine ⟨_, h.reached hn, rfl, ?_, by rintro ⟨⟩⟩
    rintro t ⟨⟩
    exact Node.carries_member ht
  | @called site func args keywords callee result hn _ =>
    cases result with
    | none =>
      cases List.mem_singleton.1 he
      trivial
    | some type =>
      rcases List.mem_cons.1 he with rfl | he
      · exact ⟨_, h.reached hn, rfl, fun _ _ => trivial, by rintro ⟨⟩⟩
      · cases List.mem_singleton.1 he
        trivial
  | literal hn hl =>
    cases List.mem_singleton.1 he
    refine ⟨_, h.reached hn, rfl, ?_, by rintro ⟨⟩⟩
    rintro t ⟨⟩
    exact Node.carries_literal hl
  | target ha _ =>
    cases List.mem_singleton.1 he
    exact ⟨_, h.reached ha.here, rfl, fun _ _ => trivial, fun _ => ⟨_, _, rfl⟩⟩
  | returned hn _ =>
    cases List.mem_singleton.1 he
    exact ⟨_, h.reached hn, rfl, trivial⟩
  | credited _ _ hd =>
    cases List.mem_singleton.1 he
    exact ⟨_, h.function _ hd, rfl, _, rfl⟩
  | assigned | importModule | importFactory | defined | skipped | argument =>
    cases List.mem_singleton.1 he
    trivial

theorem act (h : s.Orderly config module) {action : Action} (hc : Cause config module s action)
    (hf : action.Fits s) : (s.act action).Orderly config module := by
  refine ⟨h.function, fun key d hd => ?_, fun event he => ?_, h.recorded.act hf⟩
  · cases hc
    case defined definition hn =>
      simp only [State.act_env, Action.get?_define] at hd
      split at hd
      · cases hd
        exact h.reached hn
      · exact h.definitions key d hd
    case assigned type _ _ => cases type <;> exact h.definitions key d hd
    all_goals exact h.definitions key d hd
  · rcases List.mem_append.1 he with he | he
    · exact h.events_of_cause hc event he
    · exact h.events event he

/-- An event that gives no node a type may be added, and the frame may change. -/
theorem note (h : s.Orderly config module) {s' : State} {event : Event} (henv : s'.env = s.env)
    (htypes : s'.types = s.types) (htrace : s'.trace = event :: s.trace)
    (hfunction : ∀ d ∈ s'.frame.function, Reached module (.stmt (.functionDef d)))
    (he : ∀ node trace, lastType (event :: trace) node = lastType trace node)
    (hp : event.Proper config module) : s'.Orderly config module where
  function := hfunction
  definitions := henv ▸ h.definitions
  events := by
    rw [htrace]
    rintro event' (_ | ⟨_, he'⟩)
    · exact hp
    · exact h.events event' he'
  recorded := by
    refine ⟨fun i => ?_, fun i => ?_⟩
    · have same := he (.expr (.name ⟨default, i⟩ "")) s.trace
      rw [htypes, htrace, h.recorded.exprs i]
      exact same.symm
    · have same := he (.stmt (.pass ⟨default, i⟩)) s.trace
      rw [htypes, htrace, h.recorded.stmts i]
      exact same.symm

end State.Orderly

/-- No step of a run breaks the order. -/
theorem orderly_kept (config : Config) (module : Module) :
    Kept config module (State.Orderly config module) where
  act := fun h hc hf => h.act hc hf
  enter := by
    intro s name args d ns h hc _
    obtain ⟨id, -, hd⟩ := Environment.definition_ok.1 hc.found
    refine h.note rfl rfl rfl ?_ (fun node _ => by cases node <;> rfl) trivial
    rintro _ ⟨⟩
    exact h.definitions _ d hd
  leave := fun h h' _ => h'.note rfl rfl rfl h.function (fun node _ => by cases node <;> rfl) trivial
  sign := by
    intro s scope name type h hf
    refine ⟨h.function, ?_, fun event he => ?_, h.recorded.act hf⟩
    · simp only [State.act_env, Action.definitions_bind]
      exact h.definitions
    · rcases List.mem_cons.1 he with rfl | he
      · trivial
      · exact h.events event he
  found := fun h => h.note rfl rfl rfl h.function (fun node _ => by cases node <;> rfl) trivial
  again := fun h =>
    ⟨by rintro _ ⟨⟩, h.definitions, h.events, ⟨h.recorded.exprs, h.recorded.stmts⟩⟩

theorem afterRuns_orderly (config : Config) (module : Module) (n : Nat) :
    (afterRuns config module n).Orderly config module := by
  refine (orderly_kept config module).afterRuns ⟨?_, ?_, ?_, ?_⟩ n
  · rintro _ ⟨⟩
  · rintro _ _ ⟨⟩
  · rintro _ ⟨⟩
  · exact ⟨(State.recorded_start module).exprs, (State.recorded_start module).stmts⟩

/-! ## Moments -/

/-- A type that an expression has at a moment was given to it before. -/
theorem mem_of_lastExpr {i : Nat} {moment : List Event} {type : Ty}
    (h : lastExpr i moment = some type) : .annotated i (some type) ∈ moment := by
  induction moment with
  | nil => cases h
  | cons event moment ih =>
    cases event with
    | annotated j t =>
      rw [lastExpr] at h
      split at h
      · next hj =>
        rw [hj, h]
        exact List.mem_cons_self
      · exact List.mem_cons_of_mem _ (ih h)
    | _ => exact List.mem_cons_of_mem _ (ih h)

/-- A type that a statement has at a moment was given to it before. -/
theorem mem_of_lastStmt {i : Nat} {moment : List Event} {type : Ty}
    (h : lastStmt i moment = some type) : .returned i type ∈ moment ∨ .credited i type ∈ moment := by
  induction moment with
  | nil => cases h
  | cons event moment ih =>
    have later : lastStmt i moment = some type →
        .returned i type ∈ event :: moment ∨ .credited i type ∈ event :: moment :=
      fun h => (ih h).imp (List.mem_cons_of_mem _) (List.mem_cons_of_mem _)
    cases event with
    | returned j t =>
      rw [lastStmt] at h
      split at h
      · next hj =>
        cases h
        exact .inl (hj ▸ List.mem_cons_self)
      · exact later h
    | credited j t =>
      rw [lastStmt] at h
      split at h
      · next hj =>
        cases h
        exact .inr (hj ▸ List.mem_cons_self)
      · exact later h
    | _ => exact later h

section Moments

variable {moment : List Event} (hm : module.Numbered)
  (hp : ∀ event ∈ moment, event.Proper config module)

include hm hp

/-- A node that has a type at a moment is one that a run can come to, and can carry the type. -/
theorem carries_of_lastType {node : Node} {type : Ty} (hn : node ∈ module.nodes)
    (h : lastType moment node = some type) :
    Reached module node ∧ node.Carries config type := by
  cases node with
  | expr e =>
    obtain ⟨e', reached, hi, carries, -⟩ := hp _ (mem_of_lastExpr h)
    cases hm.expr_eq reached.mem_nodes hn hi
    exact ⟨reached, carries type rfl⟩
  | stmt t =>
    have given : ∃ t', Reached module (.stmt t') ∧ t'.index = t.index ∧
        (Node.stmt t').Carries config type := by
      rcases mem_of_lastStmt h with he | he
      · exact hp _ he
      · exact hp _ he
    obtain ⟨t', reached, hi, carries⟩ := given
    cases hm.stmt_eq reached.mem_nodes hn hi
    exact ⟨reached, carries⟩

/-- What is skipped has no type at any moment. -/
theorem lastType_of_skipped {node : Node} (h : Skipped module node) :
    lastType moment node = none := by
  cases hl : lastType moment node with
  | none => rfl
  | some type => exact absurd (carries_of_lastType hm hp h.mem_nodes hl).1 (h.not_code hm)

/-- A type once given to a member or a call is never taken away. -/
theorem lastType_isSome_of_suffix {earlier : List Event} (hs : earlier <:+ moment) {node : Node}
    (hn : node ∈ module.nodes) (ha : node.isAccess = true)
    (h : (lastType earlier node).isSome = true) : (lastType moment node).isSome = true := by
  induction moment with
  | nil =>
    rw [List.suffix_nil.1 hs] at h
    exact h
  | cons event later ih =>
    rcases List.suffix_cons_iff.1 hs with rfl | hs
    · exact h
    have before := ih (fun event he => hp event (List.mem_cons_of_mem _ he)) hs
    cases node with
    | stmt t => cases ha
    | expr e =>
      cases event with
      | annotated i type =>
        obtain ⟨e', reached, hi, -, hnone⟩ := hp _ List.mem_cons_self
        change (lastExpr e.index (.annotated i type :: later)).isSome = true
        rw [lastExpr]
        split
        · next hj =>
          cases type with
          | some => rfl
          | none =>
            -- Only names lose a type, and this one is none.
            cases hm.expr_eq reached.mem_nodes hn (hi.trans hj)
            obtain ⟨site, id, rfl⟩ := hnone rfl
            cases ha
        · exact before
      | _ => exact before

end Moments

end Inference

/-! ## Runs over parsed programs -/

/-- A program of a source: what is parsed, or that with calls of its entry points. -/
def Program (source : Source) (module : Module) : Prop :=
  ∃ parsed, parse source = .ok parsed ∧
    (module = parsed ∨ ∃ route, module = parsed.invokeEntryPoints route)

theorem Program.numbered {source : Source} {module : Module} (h : Program source module) :
    module.Numbered := by
  obtain ⟨parsed, hp, rfl | ⟨route, rfl⟩⟩ := h
  · exact numbered_of_parse hp
  · exact (numbered_of_parse hp).invokeEntryPoints route

/-- **Skipped regions stay untyped.** After any number of runs, successful or not, no event ever
annotated an expression inside a class or a lambda or in the signature of a function, at no moment
had any node there a type, and what is reported comes from other nodes. -/
theorem skipped_stays_untyped {config : Config} {source : Source} {module : Module}
    (h : Program source module) (n : Nat) :
    (∀ e, Skipped module (.expr e) →
      ∀ type, .annotated e.index type ∉ (afterRuns config module n).trace) ∧
    (∀ node, Skipped module node →
      (∀ moment, moment <:+ (afterRuns config module n).trace → lastType moment node = none) ∧
      (afterRuns config module n).types.ofNode? node = none) ∧
    ∀ service method,
      method ∈ (CallMap.collect (afterRuns config module n).types module).methods service ↔
        ∃ node ∈ module.nodes, ¬Skipped module node ∧
          (afterRuns config module n).types.ofNode? node = some (.invocation service method) := by
  have hm := h.numbered
  have orderly := afterRuns_orderly config module n
  have moments : ∀ moment, moment <:+ (afterRuns config module n).trace →
      ∀ event ∈ moment, event.Proper config module :=
    fun moment hs event he => orderly.events event (hs.subset he)
  have untyped : ∀ node, Skipped module node →
      (afterRuns config module n).types.ofNode? node = none := by
    intro node hnode
    rw [orderly.recorded.ofNode]
    exact lastType_of_skipped hm orderly.events hnode
  refine ⟨fun e he type ha => ?_, fun node hnode => ⟨fun moment hs => ?_, untyped node hnode⟩, ?_⟩
  · obtain ⟨e', reached, hi, -, -⟩ := orderly.events _ ha
    exact reached.expr_ne hm he hi
  · exact lastType_of_skipped hm (moments moment hs) hnode
  · intro service method
    rw [CallMap.mem_methods_collect]
    refine exists_congr fun node => and_congr_right fun _ => ⟨fun ht => ⟨fun hs => ?_, ht⟩, And.right⟩
    rw [untyped node hs] at ht
    cases ht

/-- Something stands in every region that is skipped. -/
def sideEntrances : Source where
  file := "main.py"
  text := "@a.m()\ndef f(x=b.m()) -> c:\n  lambda: d\nclass K(e.m()):\n  g\nf()\n"

theorem sideEntrances_untyped :
    ∃ module, Program sideEntrances module ∧ ∃ e, Skipped module (.expr e) ∧
      (∀ type, .annotated e.index type ∉ (afterRuns {} module 2).trace) ∧
      (afterRuns {} module 2).types.ofExpr? e = none := by
  have decorated : ((parse sideEntrances).toOption.any fun module =>
      module.functions.any fun d => !d.decorators.isEmpty) = true := by
    decide +kernel
  cases hp : parse sideEntrances with
  | error e =>
    rw [hp] at decorated
    cases decorated
  | ok module =>
    simp only [hp, Except.toOption, Option.any_some, List.any_eq_true] at decorated
    obtain ⟨d, hd, some⟩ := decorated
    have program : Program sideEntrances module := ⟨module, hp, .inl rfl⟩
    obtain ⟨never, untyped, -⟩ := @skipped_stays_untyped {} _ _ program 2
    cases hs : d.decorators with
    | nil => rw [hs] at some; cases some
    | cons e es =>
      have skipped : Skipped module (.expr e) :=
        .inSignature (mem_functions_iff.1 hd) (.decorator (by rw [hs]; exact List.mem_cons_self))
      exact ⟨module, program, e, skipped, never e skipped, (untyped _ skipped).2⟩

/-- **Each kind of node carries only its kind of type**, at every moment of any number of runs,
successful or not, and members and calls are never cleared. The tables say at the end of each run
what the moment says. -/
theorem nodes_carry_their_kind {config : Config} {source : Source} {module : Module}
    (h : Program source module) (n : Nat) :
    (∀ node, (afterRuns config module n).types.ofNode? node =
      lastType (afterRuns config module n).trace node) ∧
    ∀ moment, moment <:+ (afterRuns config module n).trace →
      (∀ node ∈ module.nodes, ∀ type, lastType moment node = some type →
        node.Carries config type) ∧
      ∀ earlier, earlier <:+ moment → ∀ node ∈ module.nodes, node.isAccess = true →
        (lastType earlier node).isSome = true → (lastType moment node).isSome = true := by
  have hm := h.numbered
  have orderly := afterRuns_orderly config module n
  refine ⟨orderly.recorded.ofNode, fun moment hs => ?_⟩
  have proper : ∀ event ∈ moment, event.Proper config module :=
    fun event he => orderly.events event (hs.subset he)
  refine ⟨fun node hn type ht => (carries_of_lastType hm proper hn ht).2, ?_⟩
  intro earlier hearlier node hn ha
  exact lastType_isSome_of_suffix hm proper hearlier hn ha

/-- A client made from a literal that a name holds. -/
def heldLiteral : Source where
  file := "main.py"
  text := "import boto3\ns = 's3'\nboto3.client(s).m()\n"

theorem heldLiteral_carried :
    ∃ module, Program heldLiteral module ∧
      (∃ node ∈ module.nodes, node.isAccess = true ∧
        (afterRuns {} module 1).types.ofNode? node = some (.methodRef "s3" "m") ∧
        node.Carries {} (.methodRef "s3" "m")) ∧
      ∀ moment, moment <:+ (afterRuns {} module 1).trace →
        ∀ node ∈ module.nodes, node.isAccess = true → (lastType moment node).isSome = true →
          ((afterRuns {} module 1).types.ofNode? node).isSome = true := by
  have evaluated : ((parse heldLiteral).toOption.any fun module => module.nodes.any fun node =>
      node.isAccess &&
        decide ((afterRuns {} module 1).types.ofNode? node = some (.methodRef "s3" "m"))) = true := by
    decide +kernel
  cases hp : parse heldLiteral with
  | error e =>
    rw [hp] at evaluated
    cases evaluated
  | ok module =>
    simp only [hp, Except.toOption, Option.any_some, List.any_eq_true, Bool.and_eq_true,
      decide_eq_true_eq] at evaluated
    obtain ⟨node, hn, access, typed⟩ := evaluated
    have program : Program heldLiteral module := ⟨module, hp, .inl rfl⟩
    obtain ⟨tables, moments⟩ := @nodes_carry_their_kind {} _ _ program 1
    obtain ⟨carries, kept⟩ := moments _ List.suffix_rfl
    refine ⟨module, program, ⟨node, hn, access, typed, ?_⟩, fun moment hs node hn ha ht => ?_⟩
    · exact carries node hn _ (tables node ▸ typed)
    · rw [tables]
      exact kept moment hs node hn ha ht

end SdkUsage
