/-
What it means to call the entry points of a module. `Extends` says of two lists of
nodes that the second one is the first with such calls, whatever the statements are
in which they stand; it has few rules, and facts about modules with calls are shown
by induction on it.

One such fact: calling the entry points keeps a module numbered. The numbers of the
calls are those that follow the numbers of the module, each taken once.
-/
import Mathlib.Data.List.Perm.Basic
import SdkUsage.EntryPoint
import SdkUsage.Proofs.Tree.Numbering

namespace SdkUsage

open SdkUsage.Tree

/-- Statements that have other statements in them, functions apart. -/
def Tree.Stmt.isCompound : Stmt → Bool
  | .branch .. | .whileLoop .. | .forLoop .. | .withBlock .. | .tryBlock .. | .classDef _ => true
  | _ => false

namespace EntryPoint

/-! ## Statements with calls -/

/-- Compound statements of one kind that may have different parts. -/
structure Alter (t t' : Stmt) : Prop where
  compound : t.isCompound = true
  compound' : t'.isCompound = true
  index : t'.index = t.index
  opensScope : (Node.stmt t').opensScope = (Node.stmt t).opensScope

/-- There is no entry point among nodes, outside of functions and classes. -/
def Uncalled (route : String) (nodes : List Node) : Prop :=
  ∀ d, .stmt (.functionDef d) ∈ nodes.flatMap Node.own → d.isEntryPoint route = false

theorem not_mem_own_exprNodes (t : Stmt) (es : List Expr) :
    .stmt t ∉ (exprNodes es).flatMap Node.own := by
  intro h
  obtain ⟨n, hn, ht⟩ := List.mem_flatMap.1 h
  obtain ⟨e, -, rfl⟩ := mem_exprNodes.1 hn
  obtain ⟨e', he⟩ := Node.exists_expr_of_mem_preorder (Node.mem_preorder_of_mem_own ht)
  cases he

theorem Uncalled.exprs (route : String) (es : List Expr) : Uncalled route (exprNodes es) :=
  fun _ hd => absurd hd (not_mem_own_exprNodes _ es)

/-- Statements that have no other statements in them have expressions. -/
theorem children_eq_exprNodes {t : Stmt} (hc : t.isCompound = false)
    (hf : ∀ d, t ≠ .functionDef d) : ∃ es, t.children = exprNodes es := by
  cases t with
  | branch | whileLoop | forLoop | withBlock | tryBlock | classDef => cases hc
  | functionDef d => exact absurd rfl (hf d)
  | expr _ value => exact ⟨[value], rfl⟩
  | augAssign _ target _ value => exact ⟨[target, value], rfl⟩
  | importModules | importFrom | globals | nonlocals | pass | breakLoop | continueLoop =>
    exact ⟨[], rfl⟩
  | assign | annAssign | returning | raising | asserting | deleting => exact ⟨_, rfl⟩

theorem Uncalled.leaf (route : String) {t : Stmt} (hc : t.isCompound = false)
    (hf : ∀ d, t ≠ .functionDef d) : Uncalled route [.stmt t] := by
  intro d hd
  have opens : (Node.stmt t).opensScope = false := by
    cases t with
    | functionDef d => exact absurd rfl (hf d)
    | classDef => cases hc
    | _ => rfl
  obtain ⟨es, children⟩ := children_eq_exprNodes hc hf
  rw [List.flatMap_singleton, Node.own_of_not_opensScope opens, Node.children, children] at hd
  rcases List.mem_cons.1 hd with h | h
  · exact absurd (Node.stmt.inj h).symm (hf d)
  · exact absurd h (not_mem_own_exprNodes _ es)

/-- Nodes and the same nodes with calls of all entry points, which have the numbers
between two counts. -/
inductive Extends (route : String) : List Node → List Node → Counts → Counts → Prop
  | refl {nodes} (c) : Uncalled route nodes → Extends route nodes nodes c c
  | append {xs xs' ys ys' c c' c''} : Extends route xs xs' c c' → Extends route ys ys' c' c'' →
    Extends route (xs ++ ys) (xs' ++ ys') c c''
  | stmt {t t' c c'} : Alter t t' → Extends route t.children t'.children c c' →
    Extends route [.stmt t] [.stmt t'] c c'
  | call {d} (c) : d.isEntryPoint route = true →
    Extends route [.stmt (.functionDef d)] [.stmt (.functionDef d), .stmt (callOf d c)] c c.next

theorem Extends.exprs (route : String) (es : List Expr) (c : Counts) :
    Extends route (exprNodes es) (exprNodes es) c c :=
  .refl c (.exprs route es)

/-- Functions are left as they are, and called if they are entry points. -/
theorem functionDef_extends (route : String) (d : Function) (c : Counts) :
    Extends route [.stmt (.functionDef d)]
      (.stmt (.functionDef d) :: stmtNodes (callsAfter route (.functionDef d) c).1) c
        (callsAfter route (.functionDef d) c).2 := by
  unfold callsAfter
  by_cases hd : d.isEntryPoint route = true
  · simp only [if_pos hd]
    exact .call c hd
  · simp only [if_neg hd]
    refine .refl c fun d' hd' => ?_
    rw [List.flatMap_singleton, Node.own_of_opensScope rfl, List.mem_singleton] at hd'
    cases hd'
    exact Bool.eq_false_iff.2 hd

mutual

theorem ofStmt_extends (route : String) : ∀ (t : Stmt) (c : Counts),
    Extends route [.stmt t] (.stmt (ofStmt route t c).1 ::
      stmtNodes (callsAfter route t (ofStmt route t c).2).1) c
        (callsAfter route t (ofStmt route t c).2).2
  | .branch _ test body orelse, c =>
    .stmt ⟨rfl, rfl, rfl, rfl⟩ ((Extends.exprs route [test] c).append
      ((ofStmts_extends route body c).append (ofStmts_extends route orelse _)))
  | .whileLoop _ test body orelse, c =>
    .stmt ⟨rfl, rfl, rfl, rfl⟩ ((Extends.exprs route [test] c).append
      ((ofStmts_extends route body c).append (ofStmts_extends route orelse _)))
  | .forLoop _ target iter body orelse _, c =>
    .stmt ⟨rfl, rfl, rfl, rfl⟩ ((Extends.exprs route [target, iter] c).append
      ((ofStmts_extends route body c).append (ofStmts_extends route orelse _)))
  | .withBlock _ items body _, c =>
    .stmt ⟨rfl, rfl, rfl, rfl⟩ ((Extends.exprs route (items.flatMap WithItem.children) c).append
      (ofStmts_extends route body c))
  | .tryBlock _ body handlers orelse finalbody, c =>
    .stmt ⟨rfl, rfl, rfl, rfl⟩ ((((ofStmts_extends route body c).append
      (ofHandlers_extends route handlers _)).append
        (ofStmts_extends route orelse _)).append (ofStmts_extends route finalbody _))
  | .classDef ⟨_, _, bases, keywords, decorators, body⟩, c =>
    .stmt ⟨rfl, rfl, rfl, rfl⟩ ((Extends.exprs route
      (decorators ++ bases ++ keywords.map (·.value)) c).append (ofStmts_extends route body c))
  | .functionDef d, c => functionDef_extends route d c
  | .expr .., c | .assign .., c | .augAssign .., c | .annAssign .., c | .importModules .., c
  | .importFrom .., c | .returning .., c | .raising .., c | .asserting .., c
  | .deleting .., c | .globals .., c | .nonlocals .., c | .pass _, c | .breakLoop _, c
  | .continueLoop _, c => .refl c (.leaf route rfl (by rintro _ ⟨⟩))

theorem ofStmts_extends (route : String) : ∀ (ts : List Stmt) (c : Counts),
    Extends route (stmtNodes ts) (stmtNodes (ofStmts route ts c).1) c (ofStmts route ts c).2
  | [], c => .exprs route [] c
  | t :: ts, c => by
    have first := ofStmt_extends route t c
    have rest := ofStmts_extends route ts (callsAfter route t (ofStmt route t c).2).2
    show Extends route ([.stmt t] ++ stmtNodes ts) (stmtNodes (_ :: _ ++ _)) c _
    rw [stmtNodes_append]
    exact first.append rest

theorem ofHandlers_extends (route : String) : ∀ (hs : List (Handler Stmt)) (c : Counts),
    Extends route (hs.flatMap Handler.children)
      ((ofHandlers route hs c).1.flatMap Handler.children) c (ofHandlers route hs c).2
  | [], c => .exprs route [] c
  | ⟨_, type, _, body⟩ :: hs, c =>
    ((Extends.exprs route type.toList c).append (ofStmts_extends route body c)).append
      (ofHandlers_extends route hs _)

end

/-! ## Numbers that are added -/

/-- Numbers are those there were and all that were given out since. -/
def Gained (old new : List Nat) (first next : Nat) : Prop :=
  ∃ count, next = first + count ∧ new.Perm (old ++ List.range' first count)

namespace Gained

variable {old new more more' : List Nat} {first middle next : Nat}

theorem refl (old : List Nat) (first : Nat) : Gained old old first first :=
  ⟨0, rfl, by simp⟩

theorem cons (h : Gained old new first next) (i : Nat) :
    Gained (i :: old) (i :: new) first next := by
  obtain ⟨count, hn, hp⟩ := h
  exact ⟨count, hn, hp.cons i⟩

theorem append (h : Gained old new first middle) (h' : Gained more more' middle next) :
    Gained (old ++ more) (new ++ more') first next := by
  obtain ⟨count, rfl, hp⟩ := h
  obtain ⟨count', rfl, hp'⟩ := h'
  refine ⟨count + count', Nat.add_assoc .., (hp.append hp').trans ?_⟩
  rw [← List.range'_append_1, List.append_assoc, List.append_assoc]
  refine List.Perm.append_left _ ?_
  rw [← List.append_assoc, ← List.append_assoc]
  exact List.perm_append_comm.append_right _

theorem le (h : Gained old new first next) : first ≤ next := by
  obtain ⟨count, rfl, -⟩ := h
  exact Nat.le_add_right first count

theorem mem (h : Gained old new first next) {i : Nat} (hi : i ∈ old) : i ∈ new := by
  obtain ⟨_, -, hp⟩ := h
  exact hp.mem_iff.2 (List.mem_append_left _ hi)

/-- Numbers below a count are below the next one. -/
theorem subperm_range (h : Gained old new first next) (ho : old.Subperm (List.range first)) :
    new.Subperm (List.range next) := by
  obtain ⟨count, rfl, hp⟩ := h
  have all : List.range first ++ List.range' first count = List.range (first + count) := by
    rw [List.range_eq_range', List.range_eq_range', ← List.range'_append_1, Nat.zero_add]
  rw [← all]
  exact hp.subperm.trans (ho.append (List.Subperm.refl _))

end Gained

/-- Nodes with calls added to them. The calls have the numbers between two
counts. -/
structure Grown (old new : List Node) (counts counts' : Counts) : Prop where
  exprs : Gained (exprNumbers old) (exprNumbers new) counts.expressions counts'.expressions
  stmts : Gained (stmtNumbers old) (stmtNumbers new) counts.statements counts'.statements
  imports : (∀ n ∈ old.flatMap Node.preorder, n.ImportsNamed) →
    ∀ n ∈ new.flatMap Node.preorder, n.ImportsNamed

namespace Grown

variable {old new more more' : List Node} {c c' c'' : Counts}

theorem refl (old : List Node) (c : Counts) : Grown old old c c :=
  ⟨.refl _ _, .refl _ _, id⟩

theorem append (h : Grown old new c c') (h' : Grown more more' c' c'') :
    Grown (old ++ more) (new ++ more') c c'' where
  exprs := by
    rw [exprNumbers_append, exprNumbers_append]
    exact h.exprs.append h'.exprs
  stmts := by
    rw [stmtNumbers_append, stmtNumbers_append]
    exact h.stmts.append h'.stmts
  imports := fun hold n hn => by
    rw [List.flatMap_append] at hold hn
    rcases List.mem_append.1 hn with hn | hn
    · exact h.imports (fun m hm => hold m (List.mem_append_left _ hm)) n hn
    · exact h'.imports (fun m hm => hold m (List.mem_append_right _ hm)) n hn

/-- A statement grows by what its parts grow. -/
theorem stmt {t t' : Stmt} (hi : t'.index = t.index) (hn : (Node.stmt t').ImportsNamed)
    (h : Grown t.children t'.children c c') : Grown [.stmt t] [.stmt t'] c c' where
  exprs := by
    rw [exprNumbers_stmt, exprNumbers_stmt]
    exact h.exprs
  stmts := by
    rw [stmtNumbers_stmt, stmtNumbers_stmt, hi]
    exact h.stmts.cons _
  imports := fun hold n hm => by
    rw [List.flatMap_singleton] at hold hm
    rcases Node.mem_preorder_cases hm with rfl | ⟨child, hc, hm⟩
    · exact hn
    · refine h.imports (fun m hm => hold m ?_) n (List.mem_flatMap.2 ⟨child, hc, hm⟩)
      obtain ⟨child, hc, hm⟩ := List.mem_flatMap.1 hm
      exact Node.mem_preorder_of_mem_children hc hm

/-- A call takes the next numbers. -/
theorem call (d : Function) (c : Counts) : Grown [] [.stmt (callOf d c)] c c.next where
  exprs := by
    refine ⟨2, rfl, ?_⟩
    have numbers : exprNumbers [.stmt (callOf d c)] = [c.expressions + 1, c.expressions] := by
      rw [exprNumbers_stmt, callOf, Stmt.children, exprNumbers_expr, Expr.children,
        List.map_nil, List.append_nil]
      exact congrArg _ (exprNumbers_expr _)
    rw [numbers]
    exact List.Perm.swap _ _ _
  stmts := by
    refine ⟨1, rfl, ?_⟩
    rw [stmtNumbers_stmt]
    simp only [callOf, Stmt.children, stmtNumbers_expr]
    exact .refl _
  imports := fun _ n hn => by
    rw [List.flatMap_singleton] at hn
    rcases Node.mem_preorder_cases hn with rfl | ⟨child, hc, hn⟩
    · trivial
    · cases List.mem_singleton.1 hc
      obtain ⟨e, rfl⟩ := Node.exists_expr_of_mem_preorder hn
      trivial

end Grown

theorem Extends.grown {route : String} {old new : List Node} {c c' : Counts}
    (h : Extends route old new c c') : Grown old new c c' := by
  induction h with
  | refl c _ => exact .refl _ c
  | append _ _ ih ih' => exact ih.append ih'
  | @stmt t t' _ _ hk _ ih =>
    have imports : (Node.stmt t').ImportsNamed := by
      cases t' with
      | importModules => cases hk.compound'
      | _ => trivial
    exact .stmt hk.index imports ih
  | @call d c _ => exact (Grown.refl [.stmt (.functionDef d)] c).append (.call d c)

end EntryPoint

/-- **A module with calls of its entry points is numbered if the module is.** -/
theorem Tree.Module.Numbered.invokeEntryPoints {module : Module} (h : module.Numbered)
    (route : String) : (module.invokeEntryPoints route).Numbered := by
  have grown := (EntryPoint.ofStmts_extends route module.body
    ⟨module.expressions, module.statements⟩).grown
  exact ⟨grown.exprs.subperm_range h.exprs, grown.stmts.subperm_range h.stmts,
    grown.imports h.imports⟩

end SdkUsage
