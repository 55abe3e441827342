/-
Whose acts are whose. Acts do not tell which definition opens a scope, since two
definitions can do the same; so each act is listed here with the node that does it
itself (`Node.ownedActs`). A node opens at most one scope and closes at most one
(`Node.picked_subperm`), and what stands within statements does its acts when all
scopes that were opened in them are closed.
-/
import SdkUsage.Proofs.Scope.Act
import SdkUsage.Proofs.Tree.Parent

namespace SdkUsage

open SdkUsage.Tree

variable {module : Module} {n : Node} {steps : List Step} {name : String} {kind : ScopeKind}

/-- An act and the node that does it. -/
structure OwnedAct where
  owner : Node
  act : Act

namespace Tree

/-- Everything a node does to names, in order, with who does it. -/
def Node.ownedActs (role : Role) (node : Node) : List OwnedAct :=
  (node.steps role).attach.flatMap fun
    | ⟨.act act, _⟩ => [⟨node, act⟩]
    | ⟨.part part child, _⟩ => child.ownedActs part
termination_by node.rank
decreasing_by exact Node.rank_lt_of_mem_children (Node.mem_children_of_step (by assumption))

/-- Everything a step does to names, with who does it. -/
def stepOwned (owner : Node) : Step → List OwnedAct
  | .act act => [⟨owner, act⟩]
  | .part role node => node.ownedActs role

theorem Node.ownedActs_eq (role : Role) (node : Node) :
    node.ownedActs role = (node.steps role).flatMap (stepOwned node) := by
  rw [Node.ownedActs, List.flatMap_subtype (g := stepOwned node), List.unattach_attach]
  rintro (act | ⟨part, child⟩) h <;> rfl

theorem map_act_flatMap {owner : Node}
    (hp : ∀ role n, .part role n ∈ steps → (n.ownedActs role).map OwnedAct.act = n.acts role) :
    (steps.flatMap (stepOwned owner)).map OwnedAct.act = steps.flatMap stepActs := by
  rw [List.map_flatMap]
  refine List.flatMap_congr fun step hs => ?_
  cases step with
  | act act => rfl
  | part role n => exact hp role n hs

/-- The acts are those of the node. -/
theorem Node.map_ownedActs (role : Role) (node : Node) :
    (node.ownedActs role).map OwnedAct.act = node.acts role := by
  rw [Node.ownedActs_eq, Node.acts_eq]
  exact map_act_flatMap fun role' n _ => n.map_ownedActs role'
termination_by node.rank
decreasing_by exact Node.rank_lt_of_mem_children (Node.mem_children_of_step (by assumption))

theorem closed_map_act {owner : Node} (h : Level steps) :
    Closed ((steps.flatMap (stepOwned owner)).map OwnedAct.act) := by
  rw [map_act_flatMap fun role n _ => n.map_ownedActs role]
  exact closed_of_level h fun role n _ => n.acts_closed role

/-- The acts of a node with a scope: some around it, then its scope. -/
theorem Node.Scoped.owned_eq {mark : Option Nat} {outer inner : List Step}
    (h : Scoped steps mark outer name kind inner) (owner : Node) :
    steps.flatMap (stepOwned owner) = outer.flatMap (stepOwned owner)
      ++ ⟨owner, .enter name kind⟩ :: (inner.flatMap (stepOwned owner) ++ [⟨owner, .leave mark⟩]) := by
  rw [h.steps]
  simp [stepOwned]

/-! ## Where the acts of a node stand -/

/-- The acts of statements, with who does them. -/
def ownedActsOf (stmts : List Stmt) : List OwnedAct :=
  (stmtNodes stmts).flatMap (Node.ownedActs .read)

theorem ownedActsOf_eq (stmts : List Stmt) (owner : Node) :
    ownedActsOf stmts = (stmts.map Step.stmt).flatMap (stepOwned owner) := by
  simp only [ownedActsOf, stmtNodes, List.flatMap_map]
  rfl

theorem map_ownedActsOf (stmts : List Stmt) :
    (ownedActsOf stmts).map OwnedAct.act = actsOf stmts := by
  rw [ownedActsOf, List.map_flatMap, actsOf]
  exact List.flatMap_congr fun n _ => n.map_ownedActs .read

/-- The acts of a node within statements come when all scopes that were opened in the
statements are closed. -/
theorem Within.owned_split {stmts : List Stmt} (h : Within stmts n) :
    ∃ role before after, ownedActsOf stmts = before ++ n.ownedActs role ++ after ∧
      Closed (before.map OwnedAct.act) := by
  induction h with
  | stmt ht =>
    obtain ⟨as, bs, hs, hacts⟩ :=
      flatMap_split (Node.ownedActs .read) (stmt_mem_stmtNodes.2 ht)
    refine ⟨.read, _, _, hacts, ?_⟩
    rw [List.map_flatMap]
    exact closed_flatMap fun m _ => m.map_ownedActs .read ▸ m.acts_closed .read
  | @part n whole _ ho hn ih =>
    obtain ⟨role, before, after, hacts, closed⟩ := ih
    obtain ⟨part, hs⟩ := Node.exists_step (Node.mem_children.2 hn) role
    obtain ⟨as, bs, hsteps, hpart⟩ := flatMap_split (stepOwned whole) hs
    have level := whole.level_steps ho role
    rw [hsteps, level_append] at level
    refine ⟨part, before ++ as.flatMap (stepOwned whole), bs.flatMap (stepOwned whole) ++ after,
      ?_, ?_⟩
    · rw [hacts, Node.ownedActs_eq, hpart]
      simp only [List.append_assoc]
      rfl
    · rw [List.map_append]
      exact closed.append (closed_map_act level.1)

theorem Within.acts_split {stmts : List Stmt} (h : Within stmts n) :
    ∃ role before after, actsOf stmts = before ++ n.acts role ++ after ∧ Closed before := by
  obtain ⟨role, before, after, hacts, closed⟩ := h.owned_split
  refine ⟨role, _, after.map OwnedAct.act, ?_, closed⟩
  rw [← map_ownedActsOf, hacts, List.map_append, List.map_append, n.map_ownedActs]

/-- The acts of any node below a node stand among its acts. -/
theorem Node.owned_split {node n : Node} (h : n ∈ node.preorder) (role : Role) :
    ∃ part before after, node.ownedActs role = before ++ n.ownedActs part ++ after := by
  rcases mem_preorder_cases h with rfl | ⟨child, hc, hn⟩
  · exact ⟨role, [], [], by simp⟩
  · obtain ⟨part, hs⟩ := Node.exists_step hc role
    obtain ⟨as, bs, -, hacts⟩ := flatMap_split (stepOwned node) hs
    obtain ⟨part', before, after, hchild⟩ := Node.owned_split hn part
    refine ⟨part', as.flatMap (stepOwned node) ++ before, after ++ bs.flatMap (stepOwned node), ?_⟩
    rw [node.ownedActs_eq role, hacts]
    change _ ++ child.ownedActs part ++ _ = _
    rw [hchild]
    simp only [List.append_assoc]
termination_by node.rank
decreasing_by exact rank_lt_of_mem_children hc

/-- Everything a module does to names, with who does it. -/
def Module.ownedActs (module : Module) : List OwnedAct := ownedActsOf module.body

theorem Module.map_ownedActs (module : Module) :
    module.ownedActs.map OwnedAct.act = module.acts := map_ownedActsOf module.body

theorem Module.owned_split (h : n ∈ module.nodes) :
    ∃ role before after, module.ownedActs = before ++ n.ownedActs role ++ after := by
  obtain ⟨m, hm, hn⟩ := List.mem_flatMap.1 h
  obtain ⟨as, bs, -, hacts⟩ := flatMap_split (Node.ownedActs .read) hm
  obtain ⟨role, before, after, hnode⟩ := Node.owned_split hn .read
  refine ⟨role, as.flatMap (Node.ownedActs .read) ++ before,
    after ++ bs.flatMap (Node.ownedActs .read), ?_⟩
  rw [Module.ownedActs, ownedActsOf, hacts, hnode]
  simp only [List.append_assoc]

theorem Module.acts_split (h : n ∈ module.nodes) :
    ∃ role before after, module.acts = before ++ n.acts role ++ after := by
  obtain ⟨role, before, after, hacts⟩ := Module.owned_split h
  refine ⟨role, before.map OwnedAct.act, after.map OwnedAct.act, ?_⟩
  rw [← Module.map_ownedActs, hacts, List.map_append, List.map_append, n.map_ownedActs]

/-- An act is a step of the node that owns it. -/
theorem Node.exists_owner {node : Node} {role : Role} {a : OwnedAct}
    (h : a ∈ node.ownedActs role) :
    a.owner ∈ node.preorder ∧ ∃ role, .act a.act ∈ a.owner.steps role := by
  rw [Node.ownedActs_eq] at h
  obtain ⟨step, hs, ha⟩ := List.mem_flatMap.1 h
  cases step with
  | act act =>
    cases List.mem_singleton.1 ha
    exact ⟨mem_preorder_self node, role, hs⟩
  | part part child =>
    have hc := Node.mem_children_of_step hs
    obtain ⟨below, steps⟩ := Node.exists_owner (show a ∈ child.ownedActs part from ha)
    exact ⟨mem_preorder_of_mem_children hc below, steps⟩
termination_by node.rank
decreasing_by exact rank_lt_of_mem_children hc

theorem Module.exists_owner {module : Module} {a : OwnedAct} (h : a ∈ module.ownedActs) :
    a.owner ∈ module.nodes ∧ ∃ role, .act a.act ∈ a.owner.steps role := by
  obtain ⟨m, hm, ha⟩ := List.mem_flatMap.1 h
  obtain ⟨below, steps⟩ := Node.exists_owner ha
  exact ⟨List.mem_flatMap.2 ⟨m, hm, below⟩, steps⟩

end Tree

/-! ## Who opens and closes scopes -/

/-- Who does the acts of some sort, in order. -/
def picked (pick : Act → Bool) (acts : List OwnedAct) : List Node :=
  (acts.filter fun a => pick a.act).map OwnedAct.owner

@[simp] theorem picked_append (pick : Act → Bool) (as bs : List OwnedAct) :
    picked pick (as ++ bs) = picked pick as ++ picked pick bs := by
  simp [picked]

theorem picked_cons (pick : Act → Bool) (a : OwnedAct) (acts : List OwnedAct) :
    picked pick (a :: acts) = picked pick [a] ++ picked pick acts :=
  picked_append pick [a] acts

/-- A sort of acts with one for each scope: those that open it, or those that close it. -/
structure Act.Once (pick : Act → Bool) : Prop where
  inside : ∀ act : Act, act.isInside = true → pick act = false
  one : ∀ name kind mark, pick (.enter name kind) = true → pick (.leave mark) = false

namespace Tree

variable {pick : Act → Bool}

theorem picked_of_level (hpick : Act.Once pick) (owner : Node) (h : Level steps)
    (hp : ∀ role n, .part role n ∈ steps →
      (picked pick (n.ownedActs role)).Subperm n.preorder) :
    (picked pick (steps.flatMap (stepOwned owner))).Subperm
      ((partsOf steps).flatMap Node.preorder) := by
  induction steps with
  | nil => exact .refl _
  | cons step steps ih =>
    have rest := ih (fun act ha => h act (List.mem_cons_of_mem _ ha))
      fun role n hn => hp role n (List.mem_cons_of_mem _ hn)
    rw [List.flatMap_cons, picked_append]
    cases step with
    | act act =>
      have none : picked pick (stepOwned owner (.act act)) = [] := by
        simp [picked, stepOwned, hpick.inside act (h act List.mem_cons_self)]
      rw [none]
      exact rest
    | part role n => exact (hp role n List.mem_cons_self).append rest

/-- **A node opens at most one scope itself, and closes at most one:** those that do so
among the acts of a node are nodes below it, each once. -/
theorem Node.picked_subperm (hpick : Act.Once pick) (node : Node) (role : Role) :
    (picked pick (node.ownedActs role)).Subperm node.preorder := by
  have ih : ∀ role' n, .part role' n ∈ node.steps role →
      (picked pick (n.ownedActs role')).Subperm n.preorder :=
    fun role' n _ => n.picked_subperm hpick role'
  have parts := (node.steps_perm role).flatMap_right Node.preorder
  rw [Node.ownedActs_eq, Node.preorder_eq]
  cases h : node.opensScope with
  | false =>
    have level := picked_of_level hpick node (node.level_steps h role) ih
    exact (level.trans parts.subperm).trans (List.sublist_cons_self _ _).subperm
  | true =>
    obtain ⟨mark, outer, name, kind, inner, hs, -⟩ := node.exists_scoped h role
    rw [hs.steps] at ih parts
    have outside := picked_of_level hpick node hs.outer fun role' n hn =>
      ih role' n (List.mem_append_left _ hn)
    have within := picked_of_level hpick node hs.inner fun role' n hn =>
      ih role' n (by simp [hn])
    have sum : (picked pick (outer.flatMap (stepOwned node)) ++
        picked pick (inner.flatMap (stepOwned node))).Subperm
        (node.children.flatMap Node.preorder) := by
      refine (outside.append within).trans (List.Perm.subperm ?_)
      rw [← List.flatMap_append]
      simpa using parts
    have own : (picked pick [⟨node, .enter name kind⟩] ++
        picked pick [⟨node, .leave mark⟩]).Subperm [node] := by
      cases he : pick (.enter name kind) with
      | false => cases hl : pick (.leave mark) <;> simp [picked, he, hl]
      | true => simp [picked, he, hpick.one name kind mark he]
    rw [hs.owned_eq, picked_append, picked_cons, picked_append]
    refine List.Perm.subperm ?_ |>.trans (own.append sum)
    rw [List.append_assoc]
    refine (List.perm_append_comm_assoc _ _ _).trans (.append_left _ ?_)
    rw [← List.append_assoc]
    exact List.perm_append_comm
termination_by node.rank
decreasing_by exact Node.rank_lt_of_mem_children (Node.mem_children_of_step (by assumption))

theorem Module.picked_subperm (hpick : Act.Once pick) (module : Module) :
    (picked pick module.ownedActs).Subperm module.nodes := by
  have all : ∀ nodes : List Node,
      (picked pick (nodes.flatMap (Node.ownedActs .read))).Subperm
        (nodes.flatMap Node.preorder) := by
    intro nodes
    induction nodes with
    | nil => exact .refl _
    | cons n nodes ih =>
      rw [List.flatMap_cons, picked_append, List.flatMap_cons]
      exact (n.picked_subperm hpick .read).append ih
  exact all _

end Tree

/-- Whether an act opens a scope. -/
def Act.opens : Act → Bool
  | .enter .. => true
  | _ => false

/-- Whether an act closes a scope. -/
def Act.closes : Act → Bool
  | .leave _ => true
  | _ => false

theorem Act.once_opens : Act.Once Act.opens where
  inside := by rintro (_ | _ | _ | _) <;> simp [Act.isInside, Act.opens]
  one := fun _ _ _ _ => rfl

theorem Act.once_closes : Act.Once Act.closes where
  inside := by rintro (_ | _ | _ | _) <;> simp [Act.isInside, Act.closes]
  one := nofun

/-- Who opens the scopes that acts open, in order. -/
def openers (acts : List OwnedAct) : List Node := picked Act.opens acts

@[simp] theorem openers_append (as bs : List OwnedAct) :
    openers (as ++ bs) = openers as ++ openers bs := picked_append ..

@[simp] theorem openers_enter (owner : Node) (name : String) (kind : ScopeKind)
    (acts : List OwnedAct) :
    openers (⟨owner, .enter name kind⟩ :: acts) = owner :: openers acts := rfl

namespace Tree

theorem Module.openers_nodup (h : module.Numbered) : (openers module.ownedActs).Nodup :=
  nodup_of_subperm (module.picked_subperm Act.once_opens) h.nodup

/-- The number of the scope that a statement opens. -/
def Module.scopeNumber (module : Module) (statement : Nat) : Nat :=
  ((openers module.ownedActs).map Node.stmtNumber?).idxOf (some statement) + 1

/-- A scope has as many scopes before it as were opened before. -/
theorem Module.scopeNumber_eq (hm : module.Numbered) {before after : List OwnedAct} {t : Stmt}
    (h : module.ownedActs = before ++ ⟨.stmt t, .enter name kind⟩ :: after) :
    module.scopeNumber t.index = (openers before).length + 1 := by
  have all : openers module.ownedActs ⊆ module.nodes :=
    (module.picked_subperm Act.once_opens).subset
  have nodup := Module.openers_nodup hm
  rw [h, openers_append, openers_enter] at nodup all
  have fresh : some t.index ∉ (openers before).map Node.stmtNumber? := by
    intro hi
    obtain ⟨n, hn, number⟩ := List.mem_map.1 hi
    cases n with
    | expr e => cases number
    | stmt u =>
      have same := hm.stmt_eq (all (List.mem_append_left _ hn))
        (all (List.mem_append_right _ List.mem_cons_self)) (Option.some.inj number)
      rw [same] at hn
      exact (List.nodup_append.1 nodup).2.2 _ hn _ List.mem_cons_self rfl
  rw [scopeNumber, h, openers_append, openers_enter, List.map_append,
    List.idxOf_append_of_notMem fresh, List.map_cons,
    show (Node.stmt t).stmtNumber? = some t.index from rfl, List.idxOf_cons_self, List.length_map]

end Tree

/-! ## Marks -/

/-- The number of the function whose scope an act closes. -/
def Act.mark? : Act → Option Nat
  | .leave mark => mark
  | _ => none

/-- The numbers of the functions whose scopes acts close, in order. -/
def marks (acts : List Act) : List Nat := acts.filterMap Act.mark?

@[simp] theorem marks_append (as bs : List Act) : marks (as ++ bs) = marks as ++ marks bs :=
  List.filterMap_append

@[simp] theorem marks_enter (name : String) (kind : ScopeKind) (acts : List Act) :
    marks (.enter name kind :: acts) = marks acts := rfl

@[simp] theorem marks_leave (mark : Option Nat) (acts : List Act) :
    marks (.leave mark :: acts) = mark.toList ++ marks acts := by
  cases mark <;> rfl

namespace Tree

/-- A scope is marked with the function that opens it. -/
theorem Node.number_of_mark {role : Role} {i : Nat} (h : .act (.leave (some i)) ∈ n.steps role) :
    n.stmtNumber? = some i := by
  cases ho : n.opensScope with
  | false => cases n.level_steps ho role _ h
  | true =>
    obtain ⟨mark, outer, name, kind, inner, hs, hmark⟩ := n.exists_scoped ho role
    rw [hs.steps] at h
    simp only [List.mem_append, List.mem_cons, List.not_mem_nil, or_false] at h
    rcases h with h | h | h | h
    · cases hs.outer _ h
    · cases h
    · cases hs.inner _ h
    · cases h
      obtain ⟨d, rfl, rfl⟩ := hmark i rfl
      rfl

theorem marks_sublist {acts : List OwnedAct}
    (h : ∀ a ∈ acts, ∀ i, a.act = .leave (some i) → a.owner.stmtNumber? = some i) :
    (marks (acts.map OwnedAct.act)).Sublist
      ((picked Act.closes acts).filterMap Node.stmtNumber?) := by
  induction acts with
  | nil => exact .refl _
  | cons a acts ih =>
    rw [List.forall_mem_cons] at h
    obtain ⟨owner, act⟩ := a
    have rest := ih h.2
    cases act with
    | use | declare | enter => exact rest
    | leave mark =>
      rw [List.map_cons, marks_leave, picked_cons, List.filterMap_append]
      refine List.Sublist.append ?_ rest
      cases mark with
      | none => exact List.nil_sublist _
      | some i =>
        rw [show picked Act.closes [⟨owner, .leave (some i)⟩] = [owner] from rfl,
          List.filterMap_cons_some (h.1 i rfl)]
        exact .refl _

/-- **The scopes of functions are closed once each.** -/
theorem Module.marks_nodup (h : module.Numbered) : (marks module.acts).Nodup := by
  rw [← Module.map_ownedActs]
  have marked := marks_sublist fun a ha i hi => by
    obtain ⟨-, role, step⟩ := @Module.exists_owner module a ha
    exact Node.number_of_mark (hi ▸ step)
  obtain ⟨closers, same, among⟩ := module.picked_subperm Act.once_closes
  have nodup := h.stmts_nodup.sublist (among.filterMap Node.stmtNumber?)
  exact ((same.filterMap Node.stmtNumber?).nodup_iff.1 nodup).sublist marked

/-- A scope is marked once. -/
theorem Module.marks_once (h : module.Numbered) {before inner after : List Act} {i : Nat}
    (hsplit : module.acts = before ++ .enter name kind :: (inner ++ .leave (some i) :: after)) :
    i ∉ marks after := by
  have nodup := Module.marks_nodup h
  rw [hsplit] at nodup
  simp only [marks_append, marks_enter, marks_leave] at nodup
  exact (List.nodup_cons.1 (List.nodup_append.1 (List.nodup_append.1 nodup).2.1).2.1).1

end Tree

end SdkUsage
