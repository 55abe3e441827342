/-
A program and a copy of it in another one, analyzed side by side. In the copy variables may have
other names and nodes other numbers, and between its statements there may be definitions that the
program has no use for (`Copy`).

The runs over both do the same at the same nodes: `Tracks` says of two operations that they both
fail, or both succeed with one answer and know the same about the program afterwards
(`State.Matches`). It has a law for each way of putting runs together and a lemma for each
operation. The extra definitions are passed over: a class is not analyzed, and of a function it is
only remembered that it is there.

So the program and the other one are found to invoke the same (`Copy.Sound.calls?_eq`).
-/
import SdkUsage.Proofs.Inference.Bare
import SdkUsage.Proofs.Inference.Provenance
import SdkUsage.Proofs.Inference.Success
import SdkUsage.Proofs.Scope.Star

namespace SdkUsage

open SdkUsage.Tree SdkUsage.Inference

/-! ## Copies -/

/-- An expression of a module is a name. -/
def Tree.Module.Mentions (module : Module) (name : String) : Prop :=
  ∃ site, .expr (.name site name) ∈ module.nodes

/-- A definition that a module has no use for: a class, as classes are not analyzed, or a function
that no expression of the module names. -/
def Tree.Stmt.Unused (c : Recast) (module : Module) : Stmt → Prop
  | .classDef _ => True
  | .functionDef d => ∀ name, module.Mentions name → c.name name ≠ d.name.text
  | _ => False

/-- No name in a module is a star. -/
def Tree.Module.Starless (module : Module) : Prop := ∀ n ∈ module.nodes, n.Starless

/-- A module and another one that holds a copy of it, with the statements that were put between
those of the copy, and the scopes of the copy. -/
structure Copy where
  c : Recast
  place : Nat → Nat
  extra : List Stmt
  module : Module
  whole : Module

/-- A copy that is analyzed as the module is. -/
structure Copy.Sound (config : Config) (p : Copy) : Prop where
  embeds : p.module.Embeds p.c p.extra p.whole
  numbered : p.module.Numbered
  numbered' : p.whole.Numbered
  names : p.c.name.Injective
  places : p.place.Injective
  root : p.place SymbolTable.root = SymbolTable.root
  tables : (SymbolTable.build p.module).Matches p.c p.place (.build p.whole)
  unused : ∀ t ∈ p.extra, t.Unused p.c p.module
  guard : config.recursionGuard = true
  stars : config.clientFactory = "*" → p.module.Starless ∧ p.whole.Starless

namespace Inference

variable {config : Config} {p : Copy} {name : String} {d : Function} {action : Action}
  {ns : Namespace} {t : Stmt} {module : Module} {args : List Expr} {value : Expr}

/-- A name of a scope is one of the copy of the scope. -/
theorem Declared.copy (hp : p.Sound config) {id : Nat} (h : Declared p.module id name) :
    Declared p.whole (p.place id) (p.c.name name) := by
  obtain ⟨scope, symbol, hs, hn⟩ := h
  obtain ⟨scope', hs', hm⟩ := hp.tables.scopes hs
  obtain ⟨symbol', hn'⟩ := Option.isSome_iff_exists.1 (hm.declared name (by rw [hn]; rfl))
  exact ⟨scope', symbol', hs', hn'⟩

theorem DefinedIn.copy (hp : p.Sound config) (h : DefinedIn p.module d) :
    DefinedIn p.whole (d.recast p.c) :=
  hp.embeds.mem_nodes h

/-- Functions of the module are told apart in the copy. -/
theorem function_inj (hp : p.Sound config) {d' : Function} (hd : DefinedIn p.module d)
    (hd' : DefinedIn p.module d') :
    p.c.stmts d.site.index = p.c.stmts d'.site.index ↔ d.site.index = d'.site.index :=
  ⟨fun h => hp.embeds.stmt_inj hp.numbered' hd hd' h, congrArg _⟩

/-! ## Frames -/

/-- The namespace of a function is that of its copy. -/
theorem Namespace.Of.copy (hp : p.Sound config) (hd : DefinedIn p.module d) (h : ns.Of p.module d) :
    (ns.moved p.place).Of p.whole (d.recast p.c) := by
  obtain ⟨scope, hs, hns, hparent⟩ := h
  have asked : ({ table := .build p.module } : Environment).definitionNamespace ns d = .ok ns := by
    refine Environment.definitionNamespace_ok.2 ⟨scope.id, scope, hs.marked, hs.found, ?_⟩
    rw [hparent, ← hns]
    rfl
  have copied : ({ table := .build p.whole } : Environment).definitionNamespace
      (ns.moved p.place) (d.recast p.c) = .ok (ns.moved p.place) :=
    Environment.definitionNamespace_matches hp.tables asked
  exact .of_definition hp.numbered' rfl (hd.copy hp) copied

namespace Frame

variable {frame : Frame}

/-- The frame of a run over the copy. -/
def recast (p : Copy) (frame : Frame) : Frame where
  ns := frame.ns.moved p.place
  function := frame.function.map (FunctionDef.recast p.c)
  active := frame.active.map (FunctionDef.recast p.c)

theorem isActive_recast (hp : p.Sound config) (hf : frame.Sound p.module)
    (hd : DefinedIn p.module d) : (frame.recast p).isActive (d.recast p.c) = frame.isActive d := by
  rw [isActive, isActive, recast, List.any_map, Bool.eq_iff_iff, List.any_eq_true, List.any_eq_true]
  refine exists_congr fun active => and_congr_right fun ha => ?_
  rw [Function.comp_apply, site_recast, site_recast, decide_eq_true_eq, decide_eq_true_eq]
  exact function_inj hp (hf.active active ha) hd

theorem Sound.copy (hp : p.Sound config) (hf : frame.Sound p.module) :
    (frame.recast p).Sound p.whole where
  fits := by
    have fits := hf.fits
    have known := hf.function
    unfold Fits at fits ⊢
    rw [recast]
    cases hd : frame.function with
    | none =>
      rw [hd] at fits
      simp only [Option.map_none, fits, Namespace.moved, Namespace.module, hp.root]
    | some d =>
      rw [hd] at fits known
      exact Namespace.Of.copy hp (known d rfl) fits
  function := fun d' hd' => by
    obtain ⟨d, hd, rfl⟩ := Option.map_eq_some_iff.1 hd'
    exact (hf.function d hd).copy hp
  active := fun d' hd' => by
    obtain ⟨d, hd, rfl⟩ := List.mem_map.1 hd'
    exact (hf.active d hd).copy hp
  distinct := by
    have stack : (frame.recast p).stack = frame.stack.map p.c.stmts := by
      simp only [Frame.stack, recast, List.map_map, Function.comp_def, site_recast]
    rw [stack]
    refine hf.distinct.map_on fun i hi j hj hij => ?_
    obtain ⟨d, hd, rfl⟩ := List.mem_map.1 hi
    obtain ⟨d', hd', rfl⟩ := List.mem_map.1 hj
    exact (function_inj hp (hf.active d hd) (hf.active d' hd')).1 hij

end Frame

/-! ## States -/

/-- As much is known about the names of the copy, and functions are known where names of the module
are. In the module itself other functions may be known under names that it does not mention. -/
structure EnvMatches (p : Copy) (env env' : Environment) : Prop where
  types : ∀ {id scope}, (SymbolTable.build p.module).scope? id = some scope → ∀ name,
    env'.types.get? (p.place id, p.c.name name) = env.types.get? (id, name)
  typed : ∀ {id name type}, env.types.get? (id, name) = some type → Declared p.module id name
  definitions : ∀ {id scope}, (SymbolTable.build p.module).scope? id = some scope → ∀ name,
    (id = SymbolTable.root → p.module.Mentions name) →
    env'.definitions.get? (p.place id, p.c.name name) =
      (env.definitions.get? (id, name)).map (FunctionDef.recast p.c)
  defined : ∀ {id name d}, env.definitions.get? (id, name) = some d → Declared p.module id name

/-- As much is known about the nodes of the copy, and nothing about those that were put in. -/
structure TypesMatch (p : Copy) (types types' : Annotations) : Prop where
  exprs : ∀ e, .expr e ∈ p.module.nodes →
    types'.exprs.get? (p.c.exprs e.index) = types.exprs.get? e.index
  stmts : ∀ t, .stmt t ∈ p.module.nodes →
    types'.stmts.get? (p.c.stmts t.index) = types.stmts.get? t.index
  untyped : ∀ n ∈ (stmtNodes p.extra).flatMap Node.preorder, types'.ofNode? n = none

/-- Two runs that stand in a frame and its copy know the same about the module. -/
structure State.Matches (s : State) (p : Copy) (frame : Frame) (s' : State) : Prop where
  env : EnvMatches p s.env s'.env
  nodes : TypesMatch p s.types s'.types
  ready : s.Ready p.module
  ready' : s'.Ready p.whole
  stands : s.frame = frame
  stands' : s'.frame = frame.recast p

/-- What is known does not depend on the frame and on what happened before. -/
theorem State.Matches.reframe {frame inner : Frame} {s s' t t' : State} (h : s.Matches p frame s')
    (he : t.env = s.env) (hn : t.types = s.types) (he' : t'.env = s'.env)
    (hn' : t'.types = s'.types) (hf : t.frame = inner) (hf' : t'.frame = inner.recast p) :
    t.Matches p inner t' where
  env := by rw [he, he']; exact h.env
  nodes := by rw [hn, hn']; exact h.nodes
  ready := ⟨he ▸ h.ready.table, hn ▸ h.ready.exprs, hn ▸ h.ready.stmts, he ▸ h.ready.definitions⟩
  ready' :=
    ⟨he' ▸ h.ready'.table, hn' ▸ h.ready'.exprs, hn' ▸ h.ready'.stmts, he' ▸ h.ready'.definitions⟩
  stands := hf
  stands' := hf'

theorem TypesMatch.ofExpr {types types' : Annotations} (h : TypesMatch p types types') {e : Expr}
    (he : .expr e ∈ p.module.nodes) : types'.ofExpr? (e.recast p.c) = types.ofExpr? e := by
  rw [Annotations.ofExpr?, Annotations.ofExpr?, Expr.index_recast, h.exprs e he]

/-- An action in the copy. -/
def Action.recast (p : Copy) : Action → Action
  | .annotate i type => .annotate (p.c.exprs i) type
  | .record i type => .record (p.c.stmts i) type
  | .credit i type => .credit (p.c.stmts i) type
  | .bind scope name type => .bind (p.place scope) (p.c.name name) type
  | .define scope name d => .define (p.place scope) (p.c.name name) (d.recast p.c)
  | .call i callee result => .call (p.c.exprs i) callee result
  | .skip i => .skip (p.c.stmts i)

/-- An action on what a module has. -/
def Action.IsOf (module : Module) : Action → Prop
  | .annotate i _ | .call i _ _ => ∃ e, .expr e ∈ module.nodes ∧ e.index = i
  | .record i _ | .credit i _ => ∃ t, .stmt t ∈ module.nodes ∧ t.index = i
  | .bind scope name _ => Declared module scope name
  | .define scope name d => Declared module scope name ∧ DefinedIn module d
  | .skip _ => True

theorem Action.IsOf.fits {s : State} (hm : module.Numbered) (hs : s.Ready module)
    (h : action.IsOf module) : action.Fits s := by
  have expr {i : Nat} : (∃ e, .expr e ∈ module.nodes ∧ e.index = i) → i < s.types.exprs.size := by
    rintro ⟨e, he, rfl⟩
    exact Nat.lt_of_lt_of_eq (hm.expr_lt he) hs.exprs.symm
  have stmt {i : Nat} : (∃ t, .stmt t ∈ module.nodes ∧ t.index = i) → i < s.types.stmts.size := by
    rintro ⟨t, ht, rfl⟩
    exact Nat.lt_of_lt_of_eq (hm.stmt_lt ht) hs.stmts.symm
  cases action with
  | annotate i type => exact expr h
  | record i type => exact stmt h
  | credit i type => exact stmt h
  | bind scope name type => exact hs.symbol h
  | define scope name d => exact hs.symbol h.1
  | call i callee result =>
    cases result with
    | none => trivial
    | some type => exact expr h
  | skip => trivial

/-- What is done to the module can be done to the copy. -/
theorem Action.IsOf.copy (hp : p.Sound config) (h : action.IsOf p.module) :
    (action.recast p).IsOf p.whole := by
  have expr {i : Nat} : (∃ e, .expr e ∈ p.module.nodes ∧ e.index = i) →
      ∃ e, .expr e ∈ p.whole.nodes ∧ e.index = p.c.exprs i := by
    rintro ⟨e, he, rfl⟩
    exact ⟨e.recast p.c, hp.embeds.mem_nodes he, e.index_recast⟩
  have stmt {i : Nat} : (∃ t, .stmt t ∈ p.module.nodes ∧ t.index = i) →
      ∃ t, .stmt t ∈ p.whole.nodes ∧ t.index = p.c.stmts i := by
    rintro ⟨t, ht, rfl⟩
    exact ⟨t.recast p.c, hp.embeds.mem_nodes ht, t.index_recast⟩
  cases action with
  | annotate i type => exact expr h
  | record i type => exact stmt h
  | credit i type => exact stmt h
  | bind scope name type => exact Declared.copy hp h
  | define scope name d => exact ⟨h.1.copy hp, h.2.copy hp⟩
  | call i callee result => exact expr h
  | skip => trivial

theorem State.Ready.did {s : State} (hs : s.Ready module) (h : action.IsOf module) :
    (s.act action).Ready module := by
  refine hs.act ?_
  rintro scope name d rfl
  exact h.2

/-- Where names are told apart, a name is the copy of another one if it is the same. -/
theorem key_recast (hp : p.Sound config) {id scope : Nat} {other : String} :
    (p.place id, p.c.name name) = (p.place scope, p.c.name other) ↔
      (id, name) = (scope, other) := by
  rw [Prod.mk.injEq, Prod.mk.injEq, hp.places.eq_iff, hp.names.eq_iff]

theorem EnvMatches.bind (hp : p.Sound config) {env env' : Environment} (h : EnvMatches p env env')
    {scope : Nat} {name : String} (hd : Declared p.module scope name) (type : Option Ty) :
    EnvMatches p ((Action.bind scope name type).onEnv env)
      ((Action.bind (p.place scope) (p.c.name name) type).onEnv env') where
  types hs other := by
    simp only [Action.get?_bind, key_recast hp, h.types hs other]
  typed ht := by
    rw [Action.get?_bind] at ht
    split at ht
    · next key =>
      cases key
      exact hd
    · exact h.typed ht
  definitions := by
    rw [Action.definitions_bind, Action.definitions_bind]
    exact h.definitions
  defined := by
    rw [Action.definitions_bind]
    exact h.defined

theorem EnvMatches.define (hp : p.Sound config) {env env' : Environment}
    (h : EnvMatches p env env') {scope : Nat} {name : String} (hd : Declared p.module scope name)
    (d : Function) :
    EnvMatches p ((Action.define scope name d).onEnv env)
      ((Action.define (p.place scope) (p.c.name name) (d.recast p.c)).onEnv env') where
  types := h.types
  typed := h.typed
  definitions hs other hm := by
    simp only [Action.get?_define, key_recast hp, h.definitions hs other hm]
    split <;> rfl
  defined hf := by
    rw [Action.get?_define] at hf
    split at hf
    · next key =>
      cases key
      exact hd
    · exact h.defined hf

/-- Tables that agree at a number and its copy still do after a change of both. -/
theorem get?_put_recast {number : Nat → Nat} {table table' : IndexTable Ty} {i j : Nat}
    (value : Option Ty) (hi : i < table.size) (hi' : number i < table'.size)
    (inj : number j = number i → j = i) (h : table'.get? (number j) = table.get? j) :
    (table'.put (number i) value).get? (number j) = (table.put i value).get? j := by
  by_cases hij : j = i
  · rw [hij, IndexTable.get?_put_self value hi, IndexTable.get?_put_self value hi']
  · rw [IndexTable.get?_put_other value hij, IndexTable.get?_put_other value (hij ∘ inj), h]

theorem TypesMatch.annotate (hp : p.Sound config) {types types' : Annotations}
    (h : TypesMatch p types types') {e : Expr} (he : .expr e ∈ p.module.nodes)
    (hf : e.index < types.exprs.size) (hf' : p.c.exprs e.index < types'.exprs.size)
    (type : Option Ty) :
    TypesMatch p { types with exprs := types.exprs.put e.index type }
      { types' with exprs := types'.exprs.put (p.c.exprs e.index) type } where
  exprs e' he' := get?_put_recast type hf hf' (hp.embeds.expr_inj hp.numbered' he' he)
    (h.exprs e' he')
  stmts := h.stmts
  untyped n hn := by
    have old := h.untyped n hn
    cases n with
    | stmt t => exact old
    | expr e' =>
      exact (IndexTable.get?_put_other type (hp.embeds.expr_ne hp.numbered' he hn)).trans old

theorem TypesMatch.record (hp : p.Sound config) {types types' : Annotations}
    (h : TypesMatch p types types') {t : Stmt} (ht : .stmt t ∈ p.module.nodes)
    (hf : t.index < types.stmts.size) (hf' : p.c.stmts t.index < types'.stmts.size)
    (type : Option Ty) :
    TypesMatch p { types with stmts := types.stmts.put t.index type }
      { types' with stmts := types'.stmts.put (p.c.stmts t.index) type } where
  exprs := h.exprs
  stmts t' ht' := get?_put_recast type hf hf' (hp.embeds.stmt_inj hp.numbered' ht' ht)
    (h.stmts t' ht')
  untyped n hn := by
    have old := h.untyped n hn
    cases n with
    | expr e => exact old
    | stmt t' =>
      exact (IndexTable.get?_put_other type (hp.embeds.stmt_ne hp.numbered' ht hn)).trans old

/-- **Two runs still know the same after one action of both.** -/
theorem State.Matches.act (hp : p.Sound config) {frame : Frame} {s s' : State}
    (h : s.Matches p frame s') (ho : action.IsOf p.module) :
    (s.act action).Matches p frame (s'.act (action.recast p)) := by
  have hf := ho.fits hp.numbered h.ready
  have hf' := (ho.copy hp).fits hp.numbered' h.ready'
  refine ⟨?env, ?nodes, h.ready.did ho, h.ready'.did (ho.copy hp), h.stands, h.stands'⟩
  case env =>
    cases action with
    | bind scope name type => exact h.env.bind hp ho type
    | define scope name d => exact h.env.define hp ho.1 d
    | call i callee result => cases result <;> exact h.env
    | annotate | record | credit | skip => exact h.env
  case nodes =>
    cases action with
    | annotate i type =>
      obtain ⟨e, he, rfl⟩ := ho
      exact h.nodes.annotate hp he hf hf' type
    | record i type =>
      obtain ⟨t, ht, rfl⟩ := ho
      exact h.nodes.record hp ht hf hf' type
    | credit i type =>
      obtain ⟨t, ht, rfl⟩ := ho
      exact h.nodes.record hp ht hf hf' type
    | call i callee result =>
      cases result with
      | none => exact h.nodes
      | some type =>
        obtain ⟨e, he, rfl⟩ := ho
        exact h.nodes.annotate hp he hf hf' type
    | bind scope name type => cases type <;> exact h.nodes
    | define | skip => exact h.nodes

/-! ## Two runs in step -/

/-- Two outcomes: both runs fail, or both give one answer and know the same afterwards. -/
inductive Meets (p : Copy) (frame : Frame) {α : Type} :
    (r r' : EStateM.Result InferenceError State α) → Prop
  | ok {a s s'} : State.Matches s p frame s' → Meets p frame (.ok a s) (.ok a s')
  | failed {e e' s s'} : Meets p frame (.error e s) (.error e' s')

/-- Two operations that do the same in a module and its copy. -/
def Tracks (p : Copy) (frame : Frame) {α : Type} (r r' : Run α) : Prop :=
  ∀ s s', s.Matches p frame s' → Meets p frame (r s) (r' s')

namespace Tracks

variable {frame : Frame} {α β γ : Type}

theorem pure {a : α} : Tracks p frame (pure a) (pure a) := fun _ _ hs => .ok hs

theorem bind {x x' : Run β} {f f' : β → Run α} (hx : Tracks p frame x x')
    (hf : ∀ b, Tracks p frame (f b) (f' b)) : Tracks p frame (x >>= f) (x' >>= f') := by
  intro s s' hs
  have first := hx s s' hs
  simp only [Bind.bind, EStateM.bind]
  generalize x s = r at first ⊢
  generalize x' s' = r' at first ⊢
  cases first with
  | ok h => exact hf _ _ _ h
  | failed => exact .failed

/-- Operations that look at the whole state. -/
theorem get {f f' : State → Run α}
    (h : ∀ s s', s.Matches p frame s' → Tracks p frame (f s) (f' s')) :
    Tracks p frame (MonadState.get >>= f) (MonadState.get >>= f') :=
  fun s s' hs => h s s' hs s s' hs

theorem forM {xs : List β} {look : β → γ} {f : β → Run Unit} {f' : γ → Run Unit}
    (h : ∀ x ∈ xs, Tracks p frame (f x) (f' (look x))) :
    Tracks p frame (xs.forM f) ((xs.map look).forM f') := by
  induction xs with
  | nil => exact pure
  | cons x xs ih =>
    exact bind (h x List.mem_cons_self) fun _ => ih fun y hy => h y (List.mem_cons_of_mem _ hy)

/-- An action and its copy. -/
theorem act (hp : p.Sound config) {r r' : Run Unit} (ho : action.IsOf p.module)
    (h : ∀ s, s.frame = frame → action.Fits s → r s = .ok () (s.act action))
    (h' : ∀ s, s.frame = frame.recast p → (action.recast p).Fits s →
      r' s = .ok () (s.act (action.recast p))) : Tracks p frame r r' := by
  intro s s' hs
  rw [h s hs.stands (ho.fits hp.numbered hs.ready),
    h' s' hs.stands' ((ho.copy hp).fits hp.numbered' hs.ready')]
  exact .ok (hs.act hp ho)

end Tracks

/-! ## Single operations -/

section Operations

variable {frame : Frame}

theorem note_tracks (event event' : Event) : Tracks p frame (note event) (note event') :=
  fun _ _ hs => .ok (hs.reframe rfl rfl rfl rfl hs.stands hs.stands')

theorem exprType_tracks {e : Expr} (he : .expr e ∈ p.module.nodes) :
    Tracks p frame (exprType e) (exprType (e.recast p.c)) := by
  intro s s' hs
  have asked : exprType (e.recast p.c) s' = .ok (s.types.ofExpr? e) s' :=
    exprType_ok.2 ⟨hs.nodes.ofExpr he, rfl⟩
  rw [asked]
  exact .ok hs

variable (hp : p.Sound config)

include hp

theorem annotate_tracks {e : Expr} (he : .expr e ∈ p.module.nodes) (type : Option Ty) :
    Tracks p frame (annotate e.index type) (annotate (p.c.exprs e.index) type) := by
  have own : (Action.annotate e.index type).IsOf p.module := ⟨e, he, rfl⟩
  exact .act hp own (fun _ _ hf => (annotate_does _ _).2 ⟨hf, rfl⟩)
    (fun _ _ hf => (annotate_does _ _).2 ⟨hf, rfl⟩)

theorem annotateSome_tracks {e : Expr} (he : .expr e ∈ p.module.nodes) (type : Option Ty) :
    Tracks p frame (annotateSome e.index type) (annotateSome (p.c.exprs e.index) type) := by
  cases type with
  | none => exact .pure
  | some type => exact annotate_tracks hp he (some type)

theorem bindIn_tracks (hd : Declared p.module ns.scope name) (type : Option Ty) :
    Tracks p frame (bindIn ns name type) (bindIn (ns.moved p.place) (p.c.name name) type) := by
  have own : (Action.bind ns.scope name type).IsOf p.module := hd
  exact .act hp own (fun _ _ hf => (bindIn_does _ _ _).2 ⟨hf, rfl⟩)
    (fun _ _ hf => (bindIn_does _ _ _).2 ⟨hf, rfl⟩)

theorem bindName_tracks (hd : Declared p.module frame.ns.scope name) (type : Option Ty) :
    Tracks p frame (bindName name type) (bindName (p.c.name name) type) := by
  have own : (Action.bind frame.ns.scope name type).IsOf p.module := hd
  refine .act hp own (fun s hs hf => ?_) (fun s hs hf => ?_)
  · exact bindName_ok.2 (by rw [hs]; exact ⟨hf, rfl⟩)
  · exact bindName_ok.2 (by rw [hs]; exact ⟨hf, rfl⟩)

theorem define_tracks (hn : Declared p.module frame.ns.scope d.name.text)
    (hd : DefinedIn p.module d) : Tracks p frame (define d) (define (d.recast p.c)) := by
  have own : (Action.define frame.ns.scope d.name.text d).IsOf p.module := ⟨hn, hd⟩
  refine .act hp own (fun s hs hf => ?_) (fun s hs hf => ?_)
  · exact define_ok.2 (by rw [hs]; exact ⟨hf, rfl⟩)
  · exact define_ok.2 (by rw [hs, name_recast]; exact ⟨hf, rfl⟩)

theorem annotateStmt_tracks (ht : .stmt t ∈ p.module.nodes) (type : Ty) :
    Tracks p frame (changeTypes (·.annotateStmt t.index type))
      (changeTypes (·.annotateStmt (p.c.stmts t.index) type)) := by
  intro s s' hs
  have own : (Action.record t.index type).IsOf p.module := ⟨t, ht, rfl⟩
  have lt := own.fits hp.numbered hs.ready
  have lt' := (own.copy hp).fits hp.numbered' hs.ready'
  have did : changeTypes (·.annotateStmt t.index type) s = .ok () _ :=
    changeTypes_ok.2 ⟨_, annotateStmt_ok.2 ⟨lt, rfl⟩, rfl⟩
  have did' : changeTypes (·.annotateStmt (p.c.stmts t.index) type) s' = .ok () _ :=
    changeTypes_ok.2 ⟨_, annotateStmt_ok.2 ⟨lt', rfl⟩, rfl⟩
  rw [did, did']
  exact .ok ((hs.act hp own).reframe rfl rfl rfl rfl hs.stands hs.stands')

omit hp in
theorem inside_tracks {body body' : Run Unit} (h : Tracks p (frame.enter ns d) body body') :
    Tracks p frame (inside ns d body) (inside (ns.moved p.place) (d.recast p.c) body') := by
  intro s s' hs
  have entered : (s.entered ns d).Matches p (frame.enter ns d)
      (s'.entered (ns.moved p.place) (d.recast p.c)) := by
    refine hs.reframe rfl rfl rfl rfl (congrArg (Frame.enter · ns d) hs.stands) ?_
    exact congrArg (Frame.enter · (ns.moved p.place) (d.recast p.c)) hs.stands'
  have inner := h _ _ entered
  rw [inside_eq, inside_eq]
  generalize body (s.entered ns d) = r at inner ⊢
  generalize body' (s'.entered (ns.moved p.place) (d.recast p.c)) = r' at inner ⊢
  cases inner with
  | failed => exact .failed
  | ok after => exact .ok (after.reframe rfl rfl rfl rfl hs.stands hs.stands')

end Operations

/-! ## Names -/

section Names

variable {frame : Frame} (hp : p.Sound config) (hf : frame.Sound p.module)

include hf in
/-- In the module names belong to the module. -/
theorem Frame.Sound.global_eq (hr : frame.ns.scope = SymbolTable.root) :
    frame.ns.global = SymbolTable.root := by
  have fits := hf.fits
  unfold Frame.Fits at fits
  split at fits
  · rw [fits]
    rfl
  · exact absurd hr (Namespace.Of.scope_ne_root fits)

include hp hf

/-- What is known about a name is what is known about its copy. -/
theorem owner_copied {s s' : State} (hs : s.Matches p frame s')
    (hn : Declared p.module frame.ns.scope name) {α β : Type} {look : α → β}
    {known : SortedMap (Nat × String) α} {known' : SortedMap (Nat × String) β}
    (hk : ∀ {id scope}, (SymbolTable.build p.module).scope? id = some scope →
      known'.get? (p.place id, p.c.name name) = (known.get? (id, name)).map look)
    (hd : ∀ {id value}, known.get? (id, name) = some value → Declared p.module id name) :
    ∃ owner owner', s.env.owner frame.ns name = .ok owner ∧
      s'.env.owner (frame.ns.moved p.place) (p.c.name name) = .ok owner' ∧
      (owner'.bind fun id => known'.get? (id, p.c.name name)) =
        (owner.bind fun id => known.get? (id, name)).map look := by
  obtain ⟨symbol, hsymbol⟩ := hs.ready.symbol hn
  obtain ⟨global, hglobal⟩ := hf.global
  have tables : s.env.table.Matches p.c p.place s'.env.table := by
    rw [hs.ready.table, hs.ready'.table]
    exact hp.tables
  refine Environment.owner_matches tables hsymbol hf.global_eq (hs.ready.table ▸ hglobal) ?_ ?_
  · rw [hs.ready.table]
    exact hk
  · intro id value hv
    obtain ⟨scope, symbol, found, here⟩ := hd hv
    rw [hs.ready.table, SymbolTable.symbol?, found]
    exact Option.isSome_iff_exists.2 ⟨symbol, here⟩

theorem typeOf_tracks (hn : Declared p.module frame.ns.scope name) :
    Tracks p frame (ask (·.typeOf · name)) (ask (·.typeOf · (p.c.name name))) := by
  intro s s' hs
  have same {id : Nat} {scope : Scope}
      (found : (SymbolTable.build p.module).scope? id = some scope) :
      s'.env.types.get? (p.place id, p.c.name name) =
        (s.env.types.get? (id, name)).map fun type => type :=
    (hs.env.types found name).trans Option.map_id'.symm
  obtain ⟨owner, owner', ho, ho', known⟩ := owner_copied hp hf hs hn same hs.env.typed
  rw [Option.map_id'] at known
  rw [← hs.stands] at ho
  have asked : ask (·.typeOf · name) s = .ok _ s :=
    ask_ok.2 ⟨Environment.typeOf_ok.2 ⟨owner, ho, rfl⟩, rfl⟩
  have asked' : ask (·.typeOf · (p.c.name name)) s' = .ok _ s' :=
    ask_ok.2 ⟨Environment.typeOf_ok.2 ⟨owner', by rw [hs.stands']; exact ho', rfl⟩, rfl⟩
  rw [asked, asked', known]
  exact .ok hs

/-- The function that a name of an expression stands for is copied with the name. -/
theorem definition_copied {s s' : State} (hs : s.Matches p frame s')
    (hn : Declared p.module frame.ns.scope name) (hm : p.module.Mentions name) :
    (∃ d, s.env.definition frame.ns name = .ok d ∧
      s'.env.definition (frame.ns.moved p.place) (p.c.name name) = .ok (d.recast p.c)) ∨
    (s.env.defines frame.ns name = false ∧
      s'.env.defines (frame.ns.moved p.place) (p.c.name name) = false) := by
  obtain ⟨owner, owner', ho, ho', known⟩ := owner_copied hp hf hs hn
    (fun found => hs.env.definitions found name fun _ => hm) hs.env.defined
  cases hd : owner.bind fun id => s.env.definitions.get? (id, name) with
  | some d =>
    rw [hd, Option.map_some] at known
    obtain ⟨id, rfl, hd⟩ := Option.bind_eq_some_iff.1 hd
    obtain ⟨id', rfl, hd'⟩ := Option.bind_eq_some_iff.1 known
    exact .inl ⟨d, Environment.definition_ok.2 ⟨id, ho, hd⟩,
      Environment.definition_ok.2 ⟨id', ho', hd'⟩⟩
  | none =>
    rw [hd, Option.map_none] at known
    refine .inr ⟨?_, ?_⟩
    · refine Bool.eq_false_iff.2 fun defined => ?_
      obtain ⟨d, found⟩ := exists_ok defined
      obtain ⟨id, ho₁, hd₁⟩ := Environment.definition_ok.1 found
      cases ho.symm.trans ho₁
      cases hd.symm.trans hd₁
    · refine Bool.eq_false_iff.2 fun defined => ?_
      obtain ⟨d, found⟩ := exists_ok defined
      obtain ⟨id, ho₁, hd₁⟩ := Environment.definition_ok.1 found
      cases ho'.symm.trans ho₁
      cases known.symm.trans hd₁

end Names

/-! ## Calls -/

section Calls

variable {frame : Frame} {enter enter' : Function → Run Unit}

/-- Bodies that are entered from a frame are analyzed alike. -/
def Entered (p : Copy) (frame : Frame) (enter enter' : Function → Run Unit) : Prop :=
  ∀ d ns, DefinedIn p.module d → ns.Of p.module d → frame.isActive d = false →
    Tracks p (frame.enter ns d) (enter d) (enter' (d.recast p.c))

theorem passArguments_tracks (hp : p.Sound config) (hns : ns.Of p.module d)
    (ha : ∀ arg ∈ args, .expr arg ∈ p.module.nodes) :
    Tracks p frame (passArguments ns args d.params.args)
      (passArguments (ns.moved p.place) (args.map (Expr.recast p.c))
        (d.params.args.map (Param.recast p.c))) := by
  unfold passArguments
  rw [List.zip_map]
  refine .forM fun (arg, param) hmem => ?_
  have mem := List.of_mem_zip hmem
  refine (exprType_tracks (ha arg mem.1)).bind fun type => ?_
  cases type with
  | none => exact .pure
  | some type =>
    obtain ⟨scope, hs, hscope, -⟩ := hns
    have here : param ∈ d.params.all := by simp [Parameters.all, mem.2]
    obtain ⟨symbol, hsymbol⟩ := Option.isSome_iff_exists.1 (hs.params param here)
    have declared : Declared p.module ns.scope param.name.text :=
      ⟨scope, symbol, hscope ▸ hs.found, hsymbol⟩
    change Tracks p frame (bindIn ns param.name.text (some type))
      (bindIn (ns.moved p.place) (param.recast p.c).name.text (some type))
    rw [Param.name_recast]
    exact bindIn_tracks hp declared (some type)

variable (hp : p.Sound config) (hf : frame.Sound p.module) (he : Entered p frame enter enter')

include hp hf he

/-- A function and its copy are called alike. -/
theorem callFunction_meets {s s' : State} (hs : s.Matches p frame s')
    (hn : Declared p.module frame.ns.scope name) (hd : s.env.definition frame.ns name = .ok d)
    (hd' : s'.env.definition (frame.ns.moved p.place) (p.c.name name) = .ok (d.recast p.c))
    (ha : ∀ arg ∈ args, .expr arg ∈ p.module.nodes) :
    Meets p frame (callFunction config enter name args s)
      (callFunction config enter' (p.c.name name) (args.map (Expr.recast p.c)) s') := by
  obtain ⟨id, -, stored⟩ := Environment.definition_ok.1 hd
  have defined : DefinedIn p.module d := hs.ready.definitions _ d stored
  obtain ⟨scope, hscope⟩ := SymbolTable.build_function hp.numbered defined
  have asked : s.env.definitionNamespace frame.ns d =
      .ok ⟨scope.id, scope.parent.getD frame.ns.global⟩ :=
    Environment.definitionNamespace_ok.2 ⟨scope.id, scope, hs.ready.table ▸ hscope.marked,
      hs.ready.table ▸ hscope.found, rfl⟩
  have hns := Namespace.Of.of_definition hp.numbered hs.ready.table defined asked
  have tables : s.env.table.Matches p.c p.place s'.env.table := by
    rw [hs.ready.table, hs.ready'.table]
    exact hp.tables
  have asked' := Environment.definitionNamespace_matches tables asked
  have ns' : s'.frame.ns = frame.ns.moved p.place := by rw [hs.stands']; rfl
  rw [← hs.stands] at hd
  nth_rewrite 1 [← hs.stands] at asked
  rw [← ns'] at hd' asked'
  rw [callFunction, callFunction, ask_bind hd, ask_bind asked, ask_bind hd', ask_bind asked']
  refine Tracks.get (fun t t' ht => ?_) s s' hs
  rw [ht.stands, ht.stands', Frame.isActive_recast hp hf defined]
  split
  · exact (note_tracks _ _).bind fun _ => .pure
  · next free =>
    have inactive : frame.isActive d = false := by
      rwa [hp.guard, Bool.true_and, Bool.not_eq_true] at free
    rw [args_recast]
    refine (passArguments_tracks hp hns ha).bind fun _ => ?_
    refine (inside_tracks (he d _ defined hns inactive)).bind fun _ => .get fun t t' ht => ?_
    have type : t'.types.stmts.get? (d.recast p.c).site.index =
        t.types.stmts.get? d.site.index := by
      rw [site_recast]
      exact ht.nodes.stmts (.functionDef d) defined
    rw [type]
    exact (bindName_tracks hp hn _).bind fun _ => .pure

theorem callType_tracks {site : Site} {func : Expr} {keywords : List (Keyword Expr)}
    (hcall : Within (frame.body p.module) (.expr (.call site func args keywords))) :
    Tracks p frame (callType config enter func args keywords)
      (callType config enter' (func.recast p.c) (args.map (Expr.recast p.c))
        (keywords.map (Keyword.recast p.c))) := by
  have here : ∀ {n}, Within (frame.body p.module) n → n ∈ p.module.nodes :=
    Frame.mem_nodes hf.function
  have callee := hcall.part rfl (.ofExpr .callee)
  intro s s' hs
  have type := hs.nodes.ofExpr (here callee)
  have client := clientType_recast fun arg ha =>
    hs.nodes.ofExpr (here (hcall.part rfl (.ofExpr (part_of_serviceArgument ha))))
  rw [callType, callType, get_bind, get_bind, type, client]
  -- What is called decides by its type, and if it has none of these, by being a name.
  have named : ∀ site name, func = .name site name →
      Meets p frame ((if s.env.defines s.frame.ns name then callFunction config enter name args
        else return none) s)
        ((if s'.env.defines s'.frame.ns (p.c.name name) then
          callFunction config enter' (p.c.name name) (args.map (Expr.recast p.c))
        else return none) s') := by
    rintro site name rfl
    have hn := hf.declared callee .name
    have ns' : s'.frame.ns = frame.ns.moved p.place := by rw [hs.stands']; rfl
    rw [hs.stands, ns']
    rcases definition_copied hp hf hs hn ⟨site, here callee⟩ with ⟨d, hd, hd'⟩ | ⟨hd, hd'⟩
    · have defined : s.env.defines frame.ns name = true := by rw [Environment.defines, hd]; rfl
      have defined' : s'.env.defines (frame.ns.moved p.place) (p.c.name name) = true := by
        rw [Environment.defines, hd']
        rfl
      rw [defined, defined']
      exact callFunction_meets hp hf he hs hn hd hd' fun arg ha =>
        here (hcall.part rfl (.ofExpr (.argument ha)))
    · rw [hd, hd']
      exact .ok hs
  cases s.types.ofExpr? func with
  | some known =>
    cases known with
    | clientFactory | methodRef | function => exact .ok hs
    | _ =>
      cases func with
      | name site name => exact named site name rfl
      | _ => exact .ok hs
  | none =>
    cases func with
    | name site name => exact named site name rfl
    | _ => exact .ok hs

end Calls

/-! ## Statements -/

section Statements

variable {frame : Frame} (hp : p.Sound config) (hf : frame.Sound p.module)

include hp hf

omit hf in
theorem assignedType_tracks (hv : .expr value ∈ p.module.nodes) :
    Tracks p frame (assignedType value) (assignedType (value.recast p.c)) := by
  refine (exprType_tracks hv).bind fun type => ?_
  rw [literal_recast, Expr.index_recast]
  cases type with
  | some type => exact .pure
  | none =>
    cases value.literal? with
    | some text => exact (annotate_tracks hp hv _).bind fun _ => .pure
    | none => exact .pure

theorem assign_tracks {targets : List Expr}
    (ht : ∀ target ∈ targets, Within (frame.body p.module) (.expr target))
    (hv : Within (frame.body p.module) (.expr value)) :
    Tracks p frame (assign targets value)
      (assign (targets.map (Expr.recast p.c)) (value.recast p.c)) := by
  refine (assignedType_tracks hp (Frame.mem_nodes hf.function hv)).bind fun type => ?_
  refine .forM fun target hmem => ?_
  have within := ht target hmem
  cases target with
  | name site name =>
    exact (bindName_tracks hp (hf.declared within .name) type).bind fun _ =>
      annotate_tracks hp (Frame.mem_nodes hf.function within) type
  | _ => exact .pure

omit hp hf in
/-- A name that the scope does not have is not bound. -/
theorem bindName_fails {s : State} {type : Option Ty} (hs : s.Ready module)
    (h : (SymbolTable.build module).Lacks name) : ∃ e t, bindName name type s = .error e t := by
  cases hr : bindName name type s with
  | error e t => exact ⟨e, t, rfl⟩
  | ok u t =>
    obtain ⟨⟨symbol, hsymbol⟩, -⟩ := bindName_ok.1 hr
    obtain ⟨scope, found, hn⟩ := Environment.symbol_ok.1 hsymbol
    cases hn.symm.trans (h (hs.table ▸ found))

omit hf in
/-- Imported names are bound alike, or a star is not bound in both. -/
theorem bindImports_tracks {member : String} {type : Ty} {names : List Alias}
    (hn : ∀ a ∈ names, a.name = member →
      (a.name ≠ "*" ∧ Declared p.module frame.ns.scope a.boundName) ∨
      (a.name = "*" ∧ a.asName = none ∧ p.module.Starless ∧ p.whole.Starless)) :
    Tracks p frame (bindImports member type names)
      (bindImports member type (names.map (Alias.recast p.c))) := by
  unfold bindImports
  rw [List.filter_map]
  simp only [Function.comp_def, Alias.name_recast]
  refine .forM fun a ha => ?_
  rw [List.mem_filter, decide_eq_true_eq] at ha
  rcases hn a ha.1 ha.2 with ⟨plain, declared⟩ | ⟨star, bare, starless, starless'⟩
  · rw [Alias.boundName_recast p.c plain]
    exact bindName_tracks hp declared _
  · intro s s' hs
    have bound : a.boundName = "*" := by
      rw [Alias.boundName, bare, star]
      decide +kernel
    have bound' : (a.recast p.c).boundName = "*" := by
      rw [Alias.recast, if_pos star]
      obtain ⟨_, _, _⟩ := a
      cases bare
      exact bound
    rw [bound, bound']
    obtain ⟨e, t, failed⟩ := bindName_fails hs.ready (Module.lacks_star starless)
    obtain ⟨e', t', failed'⟩ := bindName_fails hs.ready' (Module.lacks_star starless')
    rw [failed, failed']
    exact .failed

theorem recordReturn_tracks {site : Site}
    (ht : Within (frame.body p.module) (.stmt (.returning site (some value)))) :
    Tracks p frame (recordReturn site.index value)
      (recordReturn (p.c.stmts site.index) (value.recast p.c)) := by
  have here : ∀ {n}, Within (frame.body p.module) n → n ∈ p.module.nodes :=
    Frame.mem_nodes hf.function
  refine (exprType_tracks (here (ht.part rfl (.ofStmt .returned)))).bind fun type => ?_
  cases type with
  | none => exact .pure
  | some type =>
    refine (annotateStmt_tracks hp (here ht) type).bind fun _ => (note_tracks _ _).bind fun _ => ?_
    refine .get fun s s' hs => ?_
    rw [hs.stands, hs.stands', Frame.recast]
    -- What is credited is the function whose body is analyzed.
    cases hd : frame.function with
    | none => exact .pure
    | some d =>
      simp only [Option.map_some, site_recast]
      exact (annotateStmt_tracks hp (hf.function d hd) _).bind fun _ => note_tracks _ _

theorem concludeStmt_tracks (ht : Within (frame.body p.module) (.stmt t)) :
    Tracks p frame (concludeStmt config t) (concludeStmt config (t.recast p.c)) := by
  have here := Frame.mem_nodes hf.function ht
  cases t with
  | assign site targets value =>
    exact assign_tracks hp hf (fun _ h => ht.part rfl (.ofStmt (.assignTarget h)))
      (ht.part rfl (.ofStmt .assignValue))
  | annAssign site target hint value =>
    cases value with
    | none => exact .pure
    | some value =>
      refine assign_tracks hp hf (fun target h => ?_) (ht.part rfl (.ofStmt .annValue))
      cases List.mem_singleton.1 h
      exact ht.part rfl (.ofStmt .annTarget)
  | importModules site names =>
    have named : ∀ a ∈ names, a.name ≠ "*" := hp.numbered.imports _ here
    exact bindImports_tracks hp fun a ha _ =>
      .inl ⟨named a ha, hf.declared ht (.imported ha (named a ha))⟩
  | importFrom site path level names =>
    simp only [Stmt.recast, concludeStmt]
    split
    · refine bindImports_tracks hp fun a ha hname => ?_
      by_cases star : a.name = "*"
      · have stars := hp.stars (hname.symm.trans star)
        exact .inr ⟨star, (stars.1 _ here a ha).unnamed star, stars⟩
      · exact .inl ⟨star, hf.declared ht (.importedFrom ha star)⟩
    · exact .pure
  | functionDef d => exact define_tracks hp (hf.declared ht .function) here
  | returning site value =>
    cases value with
    | some value => exact recordReturn_tracks hp hf ht
    | none => exact .pure
  | _ => exact .pure

end Statements

/-! ## Nodes -/

section Nodes

variable {frame : Frame} {enter enter' : Function → Run Unit} (hp : p.Sound config)

section

variable (hf : frame.Sound p.module) (he : Entered p frame enter enter')

include hp hf he

theorem concludeExpr_tracks {e : Expr} (hn : Within (frame.body p.module) (.expr e)) :
    Tracks p frame (concludeExpr config enter e) (concludeExpr config enter' (e.recast p.c)) := by
  have here : ∀ {n}, Within (frame.body p.module) n → n ∈ p.module.nodes :=
    Frame.mem_nodes hf.function
  cases e with
  | name site name =>
    exact (typeOf_tracks hp hf (hf.declared hn .name)).bind fun type =>
      annotate_tracks hp (here hn) type
  | member site value attr =>
    exact (exprType_tracks (here (hn.part rfl (.ofExpr .memberValue)))).bind fun type =>
      annotateSome_tracks hp (here hn) _
  | call site func args keywords =>
    simp only [Expr.recast, concludeExpr, recastExprs_eq, recastKeywords_eq]
    refine (exprType_tracks (here (hn.part rfl (.ofExpr .callee)))).bind fun callee => ?_
    refine (callType_tracks hp hf he hn).bind fun result => (note_tracks _ _).bind fun _ => ?_
    exact annotateSome_tracks hp (here hn) result
  | _ => exact .pure

/-- **A node and its copy are analyzed alike.** -/
theorem visit_tracks {n : Node} (hn : Within (frame.body p.module) n) :
    Tracks p frame (visit config enter n) (visit config enter' (n.recast p.c)) := by
  rw [visit_eq, visit_eq, analyzed_recast]
  refine Tracks.bind (.forM fun child hc => ?_) fun _ => ?_
  · exact visit_tracks (hn.part (mem_analyzed.1 hc).1 (mem_analyzed.1 hc).2)
  · cases n with
    | expr e => exact concludeExpr_tracks hp hf he hn
    | stmt t => exact concludeStmt_tracks hp hf hn
termination_by n.rank
decreasing_by exact Node.rank_lt_of_mem_children (Node.mem_children_of_mem_analyzed hc)

theorem visitAll_tracks {ts : List Stmt} (hts : ∀ t ∈ ts, t ∈ frame.body p.module) :
    Tracks p frame (visitAll config enter ts)
      (visitAll config enter' (ts.map (Stmt.recast p.c))) :=
  .forM fun t ht => visit_tracks hp hf he (.stmt (hts t ht))

end

include hp

/-- **Bodies are analyzed alike**, if there is room for all functions of both modules. -/
theorem enterBody_tracks {bound bound' : Nat} (hf : frame.Sound p.module)
    (hb : p.module.functions.length ≤ bound + frame.active.length)
    (hb' : p.whole.functions.length ≤ bound' + frame.active.length) :
    Entered p frame (enterBody config bound) (enterBody config bound') := by
  induction bound generalizing bound' frame with
  | zero =>
    -- One more function would be active than there are.
    intro d ns hd hns hfree
    have le := (hf.enter hd hns hfree).length_le
    rw [Frame.enter, List.length_cons] at le
    omega
  | succ bound ih =>
    intro d ns hd hns hfree
    have sound := hf.enter hd hns hfree
    cases bound' with
    | zero =>
      have le := (sound.copy hp).length_le
      rw [Frame.recast, List.length_map, Frame.enter, List.length_cons] at le
      omega
    | succ bound' =>
      have inner : Entered p (frame.enter ns d) (enterBody config bound)
          (enterBody config bound') := by
        refine ih sound ?_ ?_ <;>
        · rw [Frame.enter, List.length_cons]
          omega
      rw [enterBody, enterBody, body_recast]
      exact visitAll_tracks hp sound inner fun _ ht => ht

omit hp in
/-- A statement that was put in stands in the other module. -/
theorem mem_whole (hp : p.Sound config) (ht : t ∈ p.extra) : t ∈ p.whole.body := by
  obtain ⟨before, after, -, hwhole⟩ := hp.embeds
  rw [hwhole]
  exact List.mem_append_right _ (List.mem_append_left _ ht)

omit hp in
theorem sound_start : Frame.Sound p.module {} :=
  ⟨rfl, by rintro _ ⟨⟩, by rintro _ ⟨⟩, List.nodup_nil⟩

/-- What is known about the module stays as it is if a function is defined that it does not name. -/
theorem EnvMatches.unused {env env' : Environment} (h : EnvMatches p env env') {d : Function}
    (hd : ∀ name, p.module.Mentions name → p.c.name name ≠ d.name.text) :
    EnvMatches p env ((Action.define SymbolTable.root d.name.text d).onEnv env') where
  types := h.types
  typed := h.typed
  definitions {id _} hs name hm := by
    rw [Action.get?_define, if_neg, h.definitions hs name hm]
    intro key
    obtain ⟨hid, hname⟩ := Prod.mk.inj key
    exact hd name (hm (hp.places (hid.trans hp.root.symm))) hname
  defined := h.defined

/-- An unused definition is passed over. -/
theorem visit_unused (ht : t ∈ p.extra) :
    Tracks p {} (pure ()) (visit config enter' (.stmt t)) := by
  have unused := hp.unused t ht
  have within : Within p.whole.body (.stmt t) := .stmt (mem_whole hp ht)
  have sound' := sound_start.copy hp
  rw [visit_eq]
  cases t with
  | classDef d => exact .pure
  | functionDef d =>
    intro s s' hs
    have declared : Declared p.whole SymbolTable.root d.name.text :=
      hp.root ▸ sound'.declared within .function
    have defined : DefinedIn p.whole d := within.mem_nodes
    have root : s'.frame.ns.scope = SymbolTable.root := by
      rw [hs.stands']
      exact hp.root
    have done : define d s' = .ok () (s'.act (.define SymbolTable.root d.name.text d)) := by
      refine define_ok.2 ?_
      rw [root]
      exact ⟨hs.ready'.symbol declared, rfl⟩
    change Meets p {} _ (define d s')
    rw [done]
    refine .ok ⟨hs.env.unused hp unused, hs.nodes, hs.ready, hs.ready'.did ⟨declared, defined⟩,
      hs.stands, hs.stands'⟩
  | _ => cases unused

theorem visitAll_unused {ts : List Stmt} (hts : ∀ t ∈ ts, t ∈ p.extra) :
    Tracks p {} (pure ()) (visitAll config enter' ts) := by
  induction ts with
  | nil => exact .pure
  | cons t ts ih =>
    exact Tracks.bind (visit_unused hp (hts t List.mem_cons_self)) fun _ =>
      ih fun u hu => hts u (List.mem_cons_of_mem _ hu)

end Nodes

/-! ## Modules -/

/-- Nothing is known at the start. -/
theorem State.Matches.start (hp : p.Sound config) :
    (Analysis.initial p.module).Matches p {} (Analysis.initial p.whole) where
  env := by
    have types (module : Module) (key : Nat × String) :
        (Analysis.initial module).env.types.get? key = none := rfl
    have definitions (module : Module) (key : Nat × String) :
        (Analysis.initial module).env.definitions.get? key = none := rfl
    refine ⟨fun _ _ => by rw [types, types], fun h => ?_, fun _ _ _ => ?_, fun h => ?_⟩
    · rw [types] at h
      cases h
    · rw [definitions, definitions]
      rfl
    · rw [definitions] at h
      cases h
  nodes := by
    have exprs (module : Module) (i : Nat) : (Analysis.initial module).types.exprs.get? i = none :=
      IndexTable.get?_ofSize ..
    have stmts (module : Module) (i : Nat) : (Analysis.initial module).types.stmts.get? i = none :=
      IndexTable.get?_ofSize ..
    refine ⟨fun _ _ => by rw [exprs, exprs], fun _ _ => by rw [stmts, stmts], fun n _ => ?_⟩
    cases n with
    | expr e => exact exprs ..
    | stmt t => exact stmts ..
  ready := ⟨rfl, IndexTable.size_ofSize _, IndexTable.size_ofSize _, by rintro _ _ ⟨⟩⟩
  ready' := ⟨rfl, IndexTable.size_ofSize _, IndexTable.size_ofSize _, by rintro _ _ ⟨⟩⟩
  stands := rfl
  stands' := by
    change _ = Frame.mk ⟨p.place SymbolTable.root, p.place SymbolTable.root⟩ none []
    rw [hp.root]
    rfl

/-- **A module and the one with its copy are analyzed alike.** -/
theorem analyzeModule_meets (hp : p.Sound config) :
    Meets p {} (analyzeModule config p.module (Analysis.initial p.module))
      (analyzeModule config p.whole (Analysis.initial p.whole)) := by
  have room (module : Module) :
      module.functions.length ≤ nestingBound module + ([] : List Function).length :=
    Nat.le_trans (Nat.le_succ _) (Nat.le_mul_of_pos_right _ (Nat.succ_pos _))
  have enters := enterBody_tracks hp sound_start (room p.module) (room p.whole)
  have append (enter : Function → Run Unit) (as bs : List Stmt) : visitAll config enter (as ++ bs) =
      (visitAll config enter as >>= fun _ => visitAll config enter bs) := List.forM_append
  obtain ⟨before, after, hbody, hwhole⟩ := hp.embeds
  have mem : ∀ t ∈ before ++ after, t ∈ ({} : Frame).body p.module := fun t ht =>
    (congrArg (t ∈ ·) hbody).mpr ht
  have body : Tracks p {} (visitAll config (enterBody config (nestingBound p.module)) p.module.body)
      (visitAll config (enterBody config (nestingBound p.whole)) p.whole.body) := by
    rw [hbody, hwhole, append, append, append]
    refine (visitAll_tracks hp sound_start enters fun t ht => mem t (by simp [ht])).bind fun _ => ?_
    exact (visitAll_unused hp fun t ht => ht).bind fun _ =>
      visitAll_tracks hp sound_start enters fun t ht => mem t (by simp [ht])
  exact body _ _ (.start hp)

end Inference

/-! ## What is invoked -/

variable {config : Config} {p : Copy}

/-- A module and the one with its copy are known to invoke the same. -/
theorem Inference.TypesMatch.collect_eq {types types' : Annotations} (h : TypesMatch p types types')
    (hp : p.module.Embeds p.c p.extra p.whole) :
    CallMap.collect types' p.whole = CallMap.collect types p.module := by
  have node (calls : CallMap) {n : Node} (hn : n ∈ p.module.nodes) :
      CallMap.addNode types' calls (n.recast p.c) = CallMap.addNode types calls n := by
    have known : types'.ofNode? (n.recast p.c) = types.ofNode? n := by
      cases n with
      | expr e => exact h.ofExpr hn
      | stmt t => exact (congrArg _ t.index_recast).trans (h.stmts t hn)
    rw [CallMap.addNode, CallMap.addNode, known]
  obtain ⟨before, after, hnodes, hwhole⟩ := hp.nodes_eq
  -- Nothing is known about what was put in.
  have silent (calls : CallMap) : ((stmtNodes p.extra).flatMap Node.preorder).foldl
      (CallMap.addNode types') calls = calls := by
    refine List.foldlRecOn (motive := (· = calls)) _ _ rfl fun found hf n hn => ?_
    rw [CallMap.addNode, h.untyped n hn]
    exact hf
  have copied (ns : List Node) (hns : ∀ n ∈ ns, n ∈ p.module.nodes) (calls : CallMap) :
      (ns.map (Node.recast p.c)).foldl (CallMap.addNode types') calls =
        ns.foldl (CallMap.addNode types) calls := by
    rw [List.foldl_map]
    exact List.foldl_ext _ _ _ fun calls n hn => node calls (hns n hn)
  rw [CallMap.collect, CallMap.collect, hwhole, hnodes, List.foldl_append, List.foldl_append,
    List.foldl_append, silent, copied before, copied after]
  · exact fun n hn => hnodes ▸ List.mem_append_right _ hn
  · exact fun n hn => hnodes ▸ List.mem_append_left _ hn

/-- What a module is found to invoke, unless its analysis fails. -/
def Analysis.calls? (config : Config) (module : Module) : Option CallMap :=
  match infer config module with
  | .ok state => some (.collect state.types module)
  | .error _ => none

/-- **A module and the one with its copy are found to invoke the same.** -/
theorem Copy.Sound.calls?_eq (hp : p.Sound config) :
    Analysis.calls? config p.whole = Analysis.calls? config p.module := by
  have meets := analyzeModule_meets hp
  unfold Analysis.initial at meets
  simp only [Analysis.calls?, Analysis.infer]
  generalize analyzeModule config p.module _ = r at meets ⊢
  generalize analyzeModule config p.whole _ = r' at meets ⊢
  cases meets with
  | ok h => exact congrArg some (h.nodes.collect_eq hp.embeds)
  | failed => rfl

theorem Tree.Module.Embeds.calls?_eq {c : Recast} {extra : List Stmt} {module whole : Module}
    (h : module.Embeds c extra whole) (hm : module.Numbered) (hw : whole.Numbered)
    (hname : c.name.Injective) (hu : ∀ t ∈ extra, t.Unused c module)
    (hguard : config.recursionGuard = true)
    (hstars : config.clientFactory = "*" → module.Starless ∧ whole.Starless) :
    Analysis.calls? config whole = Analysis.calls? config module := by
  obtain ⟨place, places, root, tables⟩ := SymbolTable.build_matches h hw hname
  exact Copy.Sound.calls?_eq (p := ⟨c, place, extra, module, whole⟩)
    ⟨h, hm, hw, hname, places, root, tables, hu, hguard, hstars⟩

end SdkUsage
