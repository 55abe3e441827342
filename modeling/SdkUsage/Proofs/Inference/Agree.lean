/-
Two runs side by side. One is over a module, the other over the module with more
calls in it. They agree on one side of the program, its own code: on the types of
its expressions and statements, and on what is known about names in its scopes,
except for the names of the functions on the other side.

`Agrees` says of two operations that they keep this: whenever both succeed, they
give the same answer and agree afterwards. It has rules for sequences, and one
lemma for each operation of inference. That the runs have different tables of
scopes does not matter, as long as these differ in nothing but what is read.
-/
import SdkUsage.Proofs.Inference.Flow
import SdkUsage.Proofs.Inference.Provenance
import SdkUsage.Proofs.Scope.Nesting
import SdkUsage.Proofs.Scope.Unread
import SdkUsage.Proofs.Tree.Side

namespace SdkUsage

open SdkUsage.Tree SdkUsage.Inference

variable {names : List String} {module : Module} {b b' : Bool} {id : Nat}

/-- Tables that agree at a number still do after the same change of both. -/
theorem IndexTable.get?_put_congr {α : Type} {table table' : IndexTable α} {i j : Nat}
    (value : Option α) (h : i < table.size) (h' : i < table'.size)
    (hj : table'.get? j = table.get? j) :
    (table'.put i value).get? j = (table.put i value).get? j := by
  by_cases hij : j = i
  · rw [hij, IndexTable.get?_put_self value h, IndexTable.get?_put_self value h']
  · rw [IndexTable.get?_put_other value hij, IndexTable.get?_put_other value hij, hj]

/-! ## Scopes -/

/-- The scopes of the code of a side. -/
inductive Scoped (names : List String) (module : Module) : Bool → Nat → Prop
  | module : Scoped names module false SymbolTable.root
  | function {b d id} : Side names module b d →
    (SymbolTable.build module).definitionScope? d.site.index = some id → Scoped names module b id

/-- A scope belongs to one side. -/
theorem Scoped.unique (hm : module.Numbered) (h : Scoped names module b id)
    (h' : Scoped names module b' id) : b = b' := by
  cases h with
  | module =>
    cases h' with
    | module => rfl
    | function _ hid => exact absurd rfl (SymbolTable.definitionScope?_ne_root hid)
  | @function _ d _ hd hid =>
    cases h' with
    | module => exact absurd rfl (SymbolTable.definitionScope?_ne_root hid)
    | @function _ d' _ hd' hid' =>
      have same := SymbolTable.definitionScope?_injective hid hid'
      cases hm.stmt_eq hd.mem_nodes hd'.mem_nodes same
      exact hd.unique hm hd'

/-- A name is looked up in the local scope or in the global one. -/
theorem Environment.owner_eq {env : Environment} {ns : Namespace} {name : String}
    (h : env.owner ns name = .ok (some id)) : id = ns.scope ∨ id = ns.global := by
  obtain ⟨symbol, -, ⟨-, ho⟩ | ⟨-, global, -, ho⟩⟩ := Environment.owner_ok.1 h
  · exact .inl (Option.some.inj ho)
  · obtain ⟨_, -, hid⟩ := Option.map_eq_some_iff.1 ho.symm
    exact .inr hid.symm

namespace Inference

variable {d : Function} {name : String} {e : Expr} {args : List Expr} {env : Environment}
  {s s' : State} {site : Site}

/-- A frame stands in the program's own code. -/
structure Frame.Own (names : List String) (module : Module) (frame : Frame) : Prop where
  fits : frame.Fits module
  side : ∀ d, frame.function = some d → Side names module false d

namespace Frame.Own

variable {frame : Frame}

theorem scope (h : frame.Own names module) : Scoped names module false frame.ns.scope := by
  have fits := h.fits
  rw [Frame.Fits] at fits
  split at fits
  · rw [fits]
    exact .module
  · next d hd =>
    obtain ⟨scope, hs, hn, -⟩ := fits
    exact .function (h.side d hd) (hn ▸ hs.marked)

/-- The scope around a function of the program's own is its own, too. -/
theorem global (hm : module.Numbered) (h : frame.Own names module) :
    Scoped names module false frame.ns.global := by
  have fits := h.fits
  rw [Frame.Fits] at fits
  split at fits
  · rw [fits]
    exact .module
  · next d hd =>
    obtain ⟨scope, hs, -, hp⟩ := fits
    obtain ⟨outer, hcode, ho⟩ := h.side d hd
    obtain ⟨rfl, -⟩ := Bool.or_eq_false_iff.1 ho.symm
    rcases hcode.region with ⟨-, hw⟩ | ⟨g, hg, hw⟩
    · rw [Option.some.inj (hp.symm.trans (hs.parent_root hm hw))]
      exact .module
    · obtain ⟨around, hs'⟩ := SymbolTable.build_function hm hg.mem_nodes
      rw [Option.some.inj (hp.symm.trans (hs'.parent_function hm hs hg.mem_nodes hw))]
      exact .function hg hs'.marked

theorem enter {ns : Namespace} (hd : Side names module false d) (hns : ns.Of module d) :
    (frame.enter ns d).Own names module := by
  refine ⟨hns, fun g hg => ?_⟩
  cases hg
  exact hd

end Frame.Own

/-! ## Agreement -/

/-- Two runs know the same about the names of the program's own scopes, but for the
types of the names on the other side. The functions that are known there are of the
program's own; elsewhere they have a side. -/
structure AgreeEnv (names : List String) (module : Module) (env env' : Environment) : Prop where
  table : env.table = .build module
  unread : env'.table.unread = env.table.unread
  types : ∀ id name, Scoped names module false id → (id = SymbolTable.root → name ∉ names) →
    env'.types.get? (id, name) = env.types.get? (id, name)
  definitions : ∀ id name, Scoped names module false id →
    env'.definitions.get? (id, name) = env.definitions.get? (id, name)
  own : ∀ id name d, Scoped names module false id → env.definitions.get? (id, name) = some d →
    d.name.text = name ∧ Code names module false (.stmt (.functionDef d))
  known : ∀ id name d, env'.definitions.get? (id, name) = some d →
    d.name.text = name ∧ ∃ b, Code names module b (.stmt (.functionDef d))

/-- Two runs know the same about the program's own code, and the first one knows
nothing else. -/
structure AgreeTypes (names : List String) (module : Module) (types types' : Annotations) :
    Prop where
  exprs : ∀ e, Code names module false (.expr e) → types'.ofExpr? e = types.ofExpr? e
  stmts : ∀ t, OwnStmt names module t → types'.stmts.get? t.index = types.stmts.get? t.index
  onlyExprs : ∀ i type, types.exprs.get? i = some type →
    ∃ e, Code names module false (.expr e) ∧ e.index = i
  onlyStmts : ∀ i type, types.stmts.get? i = some type →
    ∃ t, OwnStmt names module t ∧ t.index = i

/-- **Two runs agree on the program's own code.** -/
structure Agree (names : List String) (module : Module) (s s' : State) : Prop where
  env : AgreeEnv names module s.env s'.env
  nodes : AgreeTypes names module s.types s'.types

/-- An action on the program's own code. -/
def Action.IsOwn (names : List String) (module : Module) : Action → Prop
  | .annotate i _ | .call i _ _ => ∃ e, Code names module false (.expr e) ∧ e.index = i
  | .record i _ | .credit i _ => ∃ t, OwnStmt names module t ∧ t.index = i
  | .define _ name d => d.name.text = name ∧ Code names module false (.stmt (.functionDef d))
  | .bind .. | .skip _ => True

theorem AgreeEnv.bind {env env' : Environment} (h : AgreeEnv names module env env') (scope : Nat)
    (id : String) (type : Option Ty) :
    AgreeEnv names module ((Action.bind scope id type).onEnv env)
      ((Action.bind scope id type).onEnv env') where
  table := ((Action.bind scope id type).onEnv_table env).trans h.table
  unread := by
    rw [Action.onEnv_table, Action.onEnv_table]
    exact h.unread
  types key name hs hn := by
    rw [Action.get?_bind, Action.get?_bind, h.types key name hs hn]
  definitions := by
    rw [Action.definitions_bind, Action.definitions_bind]
    exact h.definitions
  own := by
    rw [Action.definitions_bind]
    exact h.own
  known := by
    rw [Action.definitions_bind]
    exact h.known

/-- What is found after a definition is the new function or was found before. -/
theorem Action.found_define {scope : Nat} {g : Function}
    (h : ((Action.define scope d.name.text d).onEnv env).definitions.get? (id, name) = some g) :
    (d.name.text = name ∧ g = d) ∨ env.definitions.get? (id, name) = some g := by
  rw [Action.get?_define] at h
  split at h
  · next hkey =>
    cases h
    exact .inl ⟨(Prod.mk.inj hkey).2.symm, rfl⟩
  · exact .inr h

theorem AgreeEnv.define {env env' : Environment} (h : AgreeEnv names module env env')
    (scope : Nat) {d : Function} (hd : Code names module false (.stmt (.functionDef d))) :
    AgreeEnv names module ((Action.define scope d.name.text d).onEnv env)
      ((Action.define scope d.name.text d).onEnv env') where
  table := h.table
  unread := h.unread
  types := h.types
  definitions id name hs := by
    rw [Action.get?_define, Action.get?_define, h.definitions id name hs]
  own id name g hs hg := by
    rcases Action.found_define hg with ⟨hname, rfl⟩ | hg
    · exact ⟨hname, hd⟩
    · exact h.own id name g hs hg
  known id name g hg := by
    rcases Action.found_define hg with ⟨hname, rfl⟩ | hg
    · exact ⟨hname, false, hd⟩
    · exact h.known id name g hg

theorem AgreeTypes.annotate {types types' : Annotations} (h : AgreeTypes names module types types')
    {i : Nat} (ho : ∃ e, Code names module false (.expr e) ∧ e.index = i)
    (hf : i < types.exprs.size) (hf' : i < types'.exprs.size) (type : Option Ty) :
    AgreeTypes names module { types with exprs := types.exprs.put i type }
      { types' with exprs := types'.exprs.put i type } where
  exprs e he := IndexTable.get?_put_congr type hf hf' (h.exprs e he)
  stmts := h.stmts
  onlyExprs j found hj := by
    by_cases hij : j = i
    · exact hij ▸ ho
    · rw [IndexTable.get?_put_other type hij] at hj
      exact h.onlyExprs j found hj
  onlyStmts := h.onlyStmts

theorem AgreeTypes.record {types types' : Annotations} (h : AgreeTypes names module types types')
    {i : Nat} (ho : ∃ t, OwnStmt names module t ∧ t.index = i) (hf : i < types.stmts.size)
    (hf' : i < types'.stmts.size) (type : Option Ty) :
    AgreeTypes names module { types with stmts := types.stmts.put i type }
      { types' with stmts := types'.stmts.put i type } where
  exprs := h.exprs
  stmts t ht := IndexTable.get?_put_congr type hf hf' (h.stmts t ht)
  onlyExprs := h.onlyExprs
  onlyStmts j found hj := by
    by_cases hij : j = i
    · exact hij ▸ ho
    · rw [IndexTable.get?_put_other type hij] at hj
      exact h.onlyStmts j found hj

/-- What both runs do to the program's own code keeps them in agreement. -/
theorem Agree.act (h : Agree names module s s') {action : Action} (ho : action.IsOwn names module)
    (hf : action.Fits s) (hf' : action.Fits s') :
    Agree names module (s.act action) (s'.act action) := by
  cases action with
  | annotate i type => exact ⟨h.env, h.nodes.annotate ho hf hf' type⟩
  | record i type => exact ⟨h.env, h.nodes.record ho hf hf' _⟩
  | credit i type => exact ⟨h.env, h.nodes.record ho hf hf' _⟩
  | bind scope id type => exact ⟨h.env.bind scope id type, h.nodes⟩
  | define scope id d =>
    obtain ⟨rfl, hd⟩ := ho
    exact ⟨h.env.define scope hd, h.nodes⟩
  | call i callee result =>
    cases result with
    | none => exact ⟨h.env, h.nodes⟩
    | some type => exact ⟨h.env, h.nodes.annotate ho hf hf' _⟩
  | skip d => exact ⟨h.env, h.nodes⟩

/-! ## Operations -/

/-- Two runs agree and stand in the same frame. -/
structure Together (names : List String) (module : Module) (frame : Frame) (s s' : State) :
    Prop where
  agree : Agree names module s s'
  stands : s.frame = frame
  stands' : s'.frame = frame

/-- Two operations, in runs that agree and stand in the same frame: where both
succeed, they give the same answer, and the runs agree and stand there again. -/
def Agrees (names : List String) (module : Module) (frame : Frame) {α : Type} (r r' : Run α)
    (post : α → Prop) : Prop :=
  ∀ s s' a a' t t', Together names module frame s s' → r s = .ok a t → r' s' = .ok a' t' →
    a' = a ∧ post a ∧ Together names module frame t t'

/-- Operations of which the answer does not matter. -/
abbrev AgreesUnit (names : List String) (module : Module) (frame : Frame) (r r' : Run Unit) : Prop :=
  Agrees names module frame r r' fun _ => True

namespace Agrees

variable {frame : Frame} {α β : Type} {post : α → Prop}

theorem pure {a : α} (h : post a) : Agrees names module frame (pure a) (pure a) post := by
  intro s s' _ _ t t' hs hr hr'
  obtain ⟨rfl, rfl⟩ := pure_ok.1 hr
  obtain ⟨rfl, rfl⟩ := pure_ok.1 hr'
  exact ⟨rfl, h, hs⟩

theorem bind {middle : β → Prop} {x x' : Run β} {f f' : β → Run α}
    (hx : Agrees names module frame x x' middle)
    (hf : ∀ b, middle b → Agrees names module frame (f b) (f' b) post) :
    Agrees names module frame (x >>= f) (x' >>= f') post := by
  intro s s' a a' t t' hs hr hr'
  obtain ⟨b, s₁, hx₁, hr⟩ := bind_ok.1 hr
  obtain ⟨b', s₁', hx₁', hr'⟩ := bind_ok.1 hr'
  obtain ⟨rfl, hb, hs₁⟩ := hx s s' b b' s₁ s₁' hs hx₁ hx₁'
  exact hf _ hb s₁ s₁' a a' t t' hs₁ hr hr'

/-- Operations that look at the whole state. -/
theorem get {f f' : State → Run α}
    (h : ∀ s s', Together names module frame s s' →
      Agrees names module frame (f s) (f' s') post) :
    Agrees names module frame (MonadState.get >>= f) (MonadState.get >>= f') post := by
  intro s s' a a' t t' hs hr hr'
  exact h s s' hs s s' a a' t t' hs hr hr'

theorem forM {xs : List β} {f f' : β → Run Unit}
    (h : ∀ x ∈ xs, AgreesUnit names module frame (f x) (f' x)) :
    AgreesUnit names module frame (xs.forM f) (xs.forM f') := by
  induction xs with
  | nil => exact pure trivial
  | cons x xs ih =>
    exact bind (h x List.mem_cons_self) fun _ _ => ih fun y hy => h y (List.mem_cons_of_mem _ hy)

/-- An action that both runs do. -/
theorem act {r r' : Run Unit} (action : Action) (ho : action.IsOwn names module)
    (h : ∀ {s u t}, s.frame = frame → r s = .ok u t → action.Fits s ∧ t = s.act action)
    (h' : ∀ {s u t}, s.frame = frame → r' s = .ok u t → action.Fits s ∧ t = s.act action) :
    AgreesUnit names module frame r r' := by
  intro s s' a a' t t' hs hr hr'
  obtain ⟨hf, rfl⟩ := h hs.stands hr
  obtain ⟨hf', rfl⟩ := h' hs.stands' hr'
  exact ⟨rfl, trivial, hs.agree.act ho hf hf', hs.stands, hs.stands'⟩

end Agrees

section Operations

variable {config : Config} {frame : Frame}

theorem note_agrees (event : Event) : AgreesUnit names module frame (note event) (note event) := by
  intro s s' a a' t t' hs hr hr'
  cases note_ok.1 hr
  cases note_ok.1 hr'
  exact ⟨rfl, trivial, ⟨hs.agree.env, hs.agree.nodes⟩, hs.stands, hs.stands'⟩

theorem exprType_agrees (he : Code names module false (.expr e)) :
    Agrees names module frame (exprType e) (exprType e) fun _ => True := by
  intro s s' a a' t t' hs hr hr'
  obtain ⟨rfl, rfl⟩ := exprType_ok.1 hr
  obtain ⟨rfl, rfl⟩ := exprType_ok.1 hr'
  exact ⟨hs.agree.nodes.exprs e he, trivial, hs⟩

theorem annotate_agrees (he : Code names module false (.expr e)) (type : Option Ty) :
    AgreesUnit names module frame (annotate e.index type) (annotate e.index type) :=
  .act (.annotate e.index type) ⟨e, he, rfl⟩ (fun _ => (annotate_does _ _).1)
    (fun _ => (annotate_does _ _).1)

theorem annotateSome_agrees (he : Code names module false (.expr e)) (type : Option Ty) :
    AgreesUnit names module frame (annotateSome e.index type) (annotateSome e.index type) := by
  cases type with
  | none => exact .pure trivial
  | some type => exact annotate_agrees he (some type)

theorem bindIn_agrees (ns : Namespace) (name : String) (type : Option Ty) :
    AgreesUnit names module frame (bindIn ns name type) (bindIn ns name type) :=
  .act (.bind ns.scope name type) trivial (fun _ => (bindIn_does _ _ _).1)
    (fun _ => (bindIn_does _ _ _).1)

theorem bindName_agrees (name : String) (type : Option Ty) :
    AgreesUnit names module frame (bindName name type) (bindName name type) := by
  refine .act (.bind frame.ns.scope name type) trivial ?_ ?_ <;>
  · rintro s u t rfl hr
    exact bindName_ok.1 hr

theorem define_agrees (hd : Code names module false (.stmt (.functionDef d))) :
    AgreesUnit names module frame (define d) (define d) := by
  refine .act (.define frame.ns.scope d.name.text d) ⟨rfl, hd⟩ ?_ ?_ <;>
  · rintro s u t rfl hr
    exact define_ok.1 hr

variable (hm : module.Numbered) (hf : frame.Own names module)

include hm hf

/-- Names of the program's own are looked up in its own scopes. -/
theorem owner_scoped (h : env.owner frame.ns name = .ok (some id)) :
    Scoped names module false id := by
  rcases Environment.owner_eq h with rfl | rfl
  · exact hf.scope
  · exact hf.global hm

theorem typeOf_agrees (hn : name ∉ names) :
    Agrees names module frame (ask (·.typeOf · name)) (ask (·.typeOf · name)) fun _ => True := by
  intro s s' a a' t t' hs hr hr'
  obtain ⟨ht, rfl⟩ := ask_ok.1 hr
  obtain ⟨ht', rfl⟩ := ask_ok.1 hr'
  rw [hs.stands] at ht
  rw [hs.stands'] at ht'
  obtain ⟨owner, ho, rfl⟩ := Environment.typeOf_ok.1 ht
  obtain ⟨owner', ho', rfl⟩ := Environment.typeOf_ok.1 ht'
  rw [Environment.owner_unread hs.agree.env.unread] at ho'
  cases ho.symm.trans ho'
  refine ⟨?_, trivial, hs⟩
  cases owner with
  | none => rfl
  | some id => exact hs.agree.env.types id name (owner_scoped hm hf ho) fun _ => hn

theorem definition_iff {env' : Environment} (h : AgreeEnv names module env env') :
    env'.definition frame.ns name = .ok d ↔ env.definition frame.ns name = .ok d := by
  rw [Environment.definition_ok, Environment.definition_ok, Environment.owner_unread h.unread]
  refine exists_congr fun id => and_congr_right fun ho => ?_
  rw [h.definitions id name (owner_scoped hm hf ho)]

theorem defines_eq (hs : Together names module frame s s') (name : String) :
    s'.env.defines s'.frame.ns name = s.env.defines s.frame.ns name := by
  have same : ∀ d, s'.env.definition frame.ns name = .ok d ↔ s.env.definition frame.ns name = .ok d :=
    fun d => definition_iff hm hf hs.agree.env
  rw [hs.stands, hs.stands', Environment.defines, Environment.defines]
  cases hd : s.env.definition frame.ns name with
  | ok d => rw [(same d).2 hd]
  | error e =>
    cases hd' : s'.env.definition frame.ns name with
    | ok d => cases hd.symm.trans ((same d).1 hd')
    | error e' => rfl

/-- The function under a name of the program's own is its own. -/
theorem definition_agrees (hn : name ∉ names) :
    Agrees names module frame (ask (·.definition · name)) (ask (·.definition · name))
      (Side names module false) := by
  intro s s' d d' t t' hs hr hr'
  obtain ⟨hd, rfl⟩ := ask_ok.1 hr
  obtain ⟨hd', rfl⟩ := ask_ok.1 hr'
  rw [hs.stands] at hd
  rw [hs.stands', definition_iff hm hf hs.agree.env, hd] at hd'
  cases hd'
  obtain ⟨id, ho, hd⟩ := Environment.definition_ok.1 hd
  obtain ⟨rfl, hcode⟩ := hs.agree.env.own id name d (owner_scoped hm hf ho) hd
  have side := hcode.side
  rw [decide_eq_false hn] at side
  exact ⟨rfl, side, hs⟩

omit hf in
/-- A function of the program's own is entered in its own namespace. -/
theorem definitionNamespace_agrees (hd : Side names module false d) :
    Agrees names module frame (ask (·.definitionNamespace · d)) (ask (·.definitionNamespace · d))
      fun ns => ns.Of module d := by
  intro s s' ns ns' t t' hs hr hr'
  obtain ⟨hns, rfl⟩ := ask_ok.1 hr
  obtain ⟨hns', rfl⟩ := ask_ok.1 hr'
  rw [hs.stands] at hns
  rw [hs.stands'] at hns'
  cases hns.symm.trans (Environment.definitionNamespace_unread hs.agree.env.unread _ hns')
  exact ⟨rfl, .of_definition hm hs.agree.env.table hd.mem_nodes hns, hs⟩

end Operations

/-! ## Calls -/

section Calls

variable {config : Config} {frame : Frame} {enter enter' : Function → Run Unit}

theorem inside_agrees {ns : Namespace} {body body' : Run Unit}
    (h : AgreesUnit names module (frame.enter ns d) body body') :
    AgreesUnit names module frame (inside ns d body) (inside ns d body') := by
  intro s s' _ _ t t' hs hr hr'
  obtain ⟨t, hb, rfl⟩ := inside_ok.1 hr
  obtain ⟨t', hb', rfl⟩ := inside_ok.1 hr'
  have entered : Together names module (frame.enter ns d) (s.entered ns d) (s'.entered ns d) := by
    refine ⟨⟨hs.agree.env, hs.agree.nodes⟩, ?_, ?_⟩
    · exact congrArg (Frame.enter · ns d) hs.stands
    · exact congrArg (Frame.enter · ns d) hs.stands'
  obtain ⟨-, -, after⟩ := h _ _ _ _ _ _ entered hb hb'
  exact ⟨rfl, trivial, ⟨after.agree.env, after.agree.nodes⟩, hs.stands, hs.stands'⟩

theorem passArguments_agrees (ns : Namespace)
    (ha : ∀ arg ∈ args, Code names module false (.expr arg)) (params : List (Param Expr)) :
    AgreesUnit names module frame (passArguments ns args params) (passArguments ns args params) := by
  refine .forM fun ⟨arg, param⟩ hmem => ?_
  refine .bind (exprType_agrees (ha arg (List.of_mem_zip hmem).1)) fun type _ => ?_
  cases type with
  | none => exact .pure trivial
  | some type => exact bindIn_agrees ns param.name.text (some type)

/-- The type of a client depends on the call that makes it. -/
theorem clientType_eq (hs : Agree names module s s') {func : Expr} {keywords : List (Keyword Expr)}
    (hcall : Code names module false (.expr (.call site func args keywords))) :
    clientType s'.types args keywords = clientType s.types args keywords := by
  unfold clientType
  cases ha : serviceArgument? args keywords with
  | none => rfl
  | some arg =>
    have code : Code names module false (.expr arg) :=
      hcall.part rfl (.ofExpr (part_of_serviceArgument ha))
    rw [Option.bind_some, Option.bind_some, knownText?, knownText?, hs.nodes.exprs arg code]

variable (hm : module.Numbered) (hf : frame.Own names module)
  (henter : ∀ d frame, Side names module false d → frame.Own names module →
    AgreesUnit names module frame (enter d) (enter' d))

include hm hf henter

theorem callFunction_agrees (hn : name ∉ names)
    (ha : ∀ arg ∈ args, Code names module false (.expr arg)) :
    Agrees names module frame (callFunction config enter name args)
      (callFunction config enter' name args) fun _ => True := by
  refine .bind (definition_agrees hm hf hn) fun d hd => ?_
  refine .bind (definitionNamespace_agrees hm hd) fun ns hns => .get fun s s' hs => ?_
  rw [hs.stands, hs.stands']
  split
  · exact .bind (note_agrees _) fun _ _ => .pure trivial
  · refine .bind (passArguments_agrees ns ha _) fun _ _ => ?_
    refine .bind (inside_agrees (henter d _ hd (.enter hd hns))) fun _ _ => .get fun s s' hs => ?_
    have type : s'.types.stmts.get? d.site.index = s.types.stmts.get? d.site.index :=
      hs.agree.nodes.stmts (.functionDef d) hd.ownStmt
    rw [type]
    exact .bind (bindName_agrees name _) fun _ _ => .pure trivial

theorem callType_agrees {func : Expr} {keywords : List (Keyword Expr)}
    (hcall : Code names module false (.expr (.call site func args keywords)))
    (hn : ∀ site name, func = .name site name → name ∉ names) :
    Agrees names module frame (callType config enter func args keywords)
      (callType config enter' func args keywords) fun _ => True := by
  have part : ∀ {e}, Expr.Part e (.call site func args keywords) →
      Code names module false (.expr e) := fun hp => hcall.part rfl (.ofExpr hp)
  refine .get fun s s' hs => ?_
  rw [hs.agree.nodes.exprs func (part .callee)]
  split
  · rw [clientType_eq hs.agree hcall]
    exact .pure trivial
  · exact .pure trivial
  · exact .pure trivial
  · rw [defines_eq hm hf hs]
    split
    · exact callFunction_agrees hm hf henter (hn _ _ rfl) fun arg ha => part (.argument ha)
    · exact .pure trivial
  · exact .pure trivial

end Calls

/-! ## Statements -/

section Statements

variable {config : Config} {frame : Frame}

theorem assign_agrees {targets : List Expr} {value : Expr}
    (ht : ∀ target ∈ targets, Code names module false (.expr target))
    (hv : Code names module false (.expr value)) :
    AgreesUnit names module frame (assign targets value) (assign targets value) := by
  have assigned : Agrees names module frame (assignedType value) (assignedType value)
      fun _ => True := by
    refine .bind (exprType_agrees hv) fun type _ => ?_
    split
    · exact .bind (annotate_agrees hv _) fun _ _ => .pure trivial
    · exact .pure trivial
  refine .bind assigned fun type _ => .forM fun target hmem => ?_
  unfold assignTarget
  split
  · next site name =>
    exact .bind (bindName_agrees name type) fun _ _ => annotate_agrees (ht _ hmem) type
  · exact .pure trivial

theorem bindImports_agrees (member : String) (type : Ty) (aliases : List Alias) :
    AgreesUnit names module frame (bindImports member type aliases)
      (bindImports member type aliases) :=
  .forM fun _ _ => bindName_agrees _ _

theorem annotateStmt_agrees {t : Stmt} (ht : OwnStmt names module t) (type : Ty) :
    AgreesUnit names module frame (changeTypes (·.annotateStmt t.index type))
      (changeTypes (·.annotateStmt t.index type)) := by
  intro s s' _ _ _ _ hs hr hr'
  obtain ⟨types, he, rfl⟩ := changeTypes_ok.1 hr
  obtain ⟨types', he', rfl⟩ := changeTypes_ok.1 hr'
  obtain ⟨hi, rfl⟩ := annotateStmt_ok.1 he
  obtain ⟨hi', rfl⟩ := annotateStmt_ok.1 he'
  exact ⟨rfl, trivial, ⟨hs.agree.env, hs.agree.nodes.record ⟨t, ht, rfl⟩ hi hi' _⟩, hs.stands,
    hs.stands'⟩

variable (hf : frame.Own names module)

include hf

theorem recordReturn_agrees {value : Expr}
    (ht : Code names module false (.stmt (.returning site (some value)))) :
    AgreesUnit names module frame (recordReturn site.index value)
      (recordReturn site.index value) := by
  have own : OwnStmt names module (.returning site (some value)) := ⟨ht, by rintro _ ⟨⟩⟩
  refine .bind (exprType_agrees (ht.part rfl (.ofStmt .returned))) fun type _ => ?_
  cases type with
  | none => exact .pure trivial
  | some type =>
    refine .bind (annotateStmt_agrees own type) fun _ _ => .bind (note_agrees _) fun _ _ => ?_
    refine .get fun s s' hs => ?_
    rw [hs.stands, hs.stands']
    split
    · next d hd =>
      exact .bind (annotateStmt_agrees (hf.side d hd).ownStmt _) fun _ _ => note_agrees _
    · exact .pure trivial

theorem concludeStmt_agrees {t : Stmt} (ht : Code names module false (.stmt t)) :
    AgreesUnit names module frame (concludeStmt config t) (concludeStmt config t) := by
  unfold concludeStmt
  split
  · exact assign_agrees (fun _ h => ht.part rfl (.ofStmt (.assignTarget h)))
      (ht.part rfl (.ofStmt .assignValue))
  · refine assign_agrees (fun target h => ?_) (ht.part rfl (.ofStmt .annValue))
    cases List.mem_singleton.1 h
    exact ht.part rfl (.ofStmt .annTarget)
  · exact bindImports_agrees _ _ _
  · split
    · exact bindImports_agrees _ _ _
    · exact .pure trivial
  · exact define_agrees ht
  · exact recordReturn_agrees hf ht
  · exact .pure trivial

end Statements

/-! ## Nodes -/

section Nodes

variable {config : Config} {frame : Frame} {enter enter' : Function → Run Unit}
  (hm : module.Numbered)
  (own : ∀ site id, Code names module false (.expr (.name site id)) → id ∉ names)

include hm own

section

variable (hf : frame.Own names module)
  (henter : ∀ d frame, Side names module false d → frame.Own names module →
    AgreesUnit names module frame (enter d) (enter' d))

include hf henter

theorem concludeExpr_agrees (he : Code names module false (.expr e)) :
    AgreesUnit names module frame (concludeExpr config enter e) (concludeExpr config enter' e) := by
  unfold concludeExpr
  split
  · next site name =>
    exact .bind (typeOf_agrees hm hf (own site name he)) fun type _ => annotate_agrees he type
  · next site value attr =>
    exact .bind (exprType_agrees (he.part rfl (.ofExpr .memberValue))) fun type _ =>
      annotateSome_agrees he _
  · next site func args keywords =>
    have callee : Code names module false (.expr func) := he.part rfl (.ofExpr .callee)
    refine .bind (exprType_agrees callee) fun type _ => ?_
    refine .bind (callType_agrees hm hf henter he ?_) fun result _ => ?_
    · rintro site name rfl
      exact own site name callee
    · exact .bind (note_agrees _) fun _ _ => annotateSome_agrees he result
  · exact .pure trivial

theorem visit_agrees {node : Node} (hn : Code names module false node) :
    AgreesUnit names module frame (visit config enter node) (visit config enter' node) := by
  rw [visit_eq, visit_eq]
  refine .bind (.forM fun child hc => ?_) fun _ _ => ?_
  · exact visit_agrees (hn.part (mem_analyzed.1 hc).1 (mem_analyzed.1 hc).2)
  · cases node with
    | expr e => exact concludeExpr_agrees hm own hf henter hn
    | stmt t => exact concludeStmt_agrees hf hn
termination_by node.rank
decreasing_by exact Node.rank_lt_of_mem_children (Node.mem_children_of_mem_analyzed hc)

end

/-- **Bodies of the program's own functions keep two runs in agreement**, however
many bodies may be nested in each. -/
theorem enterBody_agrees (bound bound' : Nat) (hd : Side names module false d)
    (hf : frame.Own names module) :
    AgreesUnit names module frame (enterBody config bound d) (enterBody config bound' d) := by
  induction bound generalizing bound' d frame with
  | zero =>
    intro s s' _ _ t t' _ hr
    cases hr
  | succ bound ih =>
    cases bound' with
    | zero =>
      intro s s' _ _ t t' _ _ hr'
      cases hr'
    | succ bound' =>
      refine .forM fun t ht => visit_agrees hm own hf (fun d frame hd hf => ih bound' hd hf) ?_
      exact hd.code (.stmt ht)

end Nodes

end Inference

end SdkUsage
