/-
Calls of entry points are put into a recast program where they are put into the program, and the
new numbers go on from those of the program (`EntryPoint.ofStmts_follows`).
-/
import SdkUsage.EntryPoint
import SdkUsage.Proofs.Tree.Recast

namespace SdkUsage

open SdkUsage.Tree

variable {c : Recast}

namespace EntryPoint

variable {α β γ δ : Type} {k k' : Counts}

/-- The numbers from a count on become those from another count on. -/
structure Continues (c : Recast) (k k' : Counts) : Prop where
  exprs : ∀ j, c.exprs (k.expressions + j) = k'.expressions + j
  stmts : ∀ j, c.stmts (k.statements + j) = k'.statements + j

theorem Continues.next (h : Continues c k k') : Continues c k.next k'.next where
  exprs j := by
    have := h.exprs (2 + j)
    simpa only [Counts.next, Nat.add_assoc] using this
  stmts j := by
    have := h.stmts (1 + j)
    simpa only [Counts.next, Nat.add_assoc] using this

/-- Where the numbers of calls correspond, a second result is a view of a first one, and the
numbers of what comes next correspond again. -/
def Follows (c : Recast) (view : α → β) (x : StateM Counts α) (y : StateM Counts β) : Prop :=
  ∀ k k', Continues c k k' → (y k').1 = view (x k).1 ∧ Continues c (x k).2 (y k').2

theorem Follows.pure {view : α → β} (a : α) :
    Follows c view (Pure.pure a) (Pure.pure (view a)) :=
  fun _ _ hk => ⟨rfl, hk⟩

theorem Follows.bind {view : α → β} {view' : γ → δ} {x : StateM Counts α} {y : StateM Counts β}
    {f : α → StateM Counts γ} {g : β → StateM Counts δ} (h : Follows c view x y)
    (hf : ∀ a, Follows c view' (f a) (g (view a))) : Follows c view' (x >>= f) (y >>= g) := by
  intro k k' hk
  obtain ⟨seen, next⟩ := h k k' hk
  have after := hf (x k).1 _ _ next
  rw [← seen] at after
  exact after

variable (route : String)

theorem isRoute_recast (e : Expr) : isRoute route (e.recast c) = isRoute route e := by
  cases e with
  | call _ func =>
    cases func with
    | member => simp only [Expr.recast, isRoute, recastExprs_eq, List.isEmpty_map, Ident.bare]
    | _ => rfl
  | _ => rfl

theorem isEntryPoint_recast (d : Function) :
    (d.recast c).isEntryPoint route = d.isEntryPoint route := by
  cases d
  simp only [FunctionDef.isEntryPoint, FunctionDef.recast, List.any_map]
  exact congrArg _ (funext fun e => isRoute_recast route e)

theorem callOf_recast (h : Continues c k k') (d : Function) :
    callOf (d.recast c) k' = (callOf d k).recast c := by
  have expr := h.exprs 0
  have stmt := h.stmts 0
  rw [Nat.add_zero, Nat.add_zero] at expr stmt
  cases d
  simp only [callOf, FunctionDef.recast, Stmt.recast, Expr.recast, Site.recast, Ident.recast,
    recastExprs, recastKeywords, expr, stmt, h.exprs 1]

theorem callsAfter_follows (t : Stmt) :
    Follows c (recastStmts c) (callsAfter route t) (callsAfter route (t.recast c)) := by
  cases t with
  | functionDef d =>
    have run (d : Function) (k : Counts) : callsAfter route (.functionDef d) k =
        if d.isEntryPoint route then ([callOf d k], k.next) else ([], k) := rfl
    intro k k' hk
    rw [Stmt.recast, run, run, isEntryPoint_recast]
    split
    · exact ⟨congrArg (fun t => [t]) (callOf_recast hk d), hk.next⟩
    · exact ⟨rfl, hk⟩
  | _ => exact .pure []

mutual

theorem ofStmt_follows : ∀ t : Stmt,
    Follows c (Stmt.recast c) (ofStmt route t) (ofStmt route (t.recast c))
  | .branch _ _ body orelse | .whileLoop _ _ body orelse | .forLoop _ _ _ body orelse _ =>
    (ofStmts_follows body).bind fun _ => (ofStmts_follows orelse).bind fun _ => .pure _
  | .withBlock _ _ body _ => (ofStmts_follows body).bind fun _ => .pure _
  | .tryBlock _ body handlers orelse finalbody =>
    (ofStmts_follows body).bind fun _ => (ofHandlers_follows handlers).bind fun _ =>
      (ofStmts_follows orelse).bind fun _ => (ofStmts_follows finalbody).bind fun _ => .pure _
  | .classDef d => (ofClass_follows d).bind fun _ => .pure _
  | .functionDef _ | .expr .. | .assign .. | .augAssign .. | .annAssign .. | .importModules ..
  | .importFrom .. | .returning .. | .raising .. | .asserting .. | .deleting .. | .globals ..
  | .nonlocals .. | .pass _ | .breakLoop _ | .continueLoop _ => .pure _

theorem ofStmts_follows : ∀ ts : List Stmt,
    Follows c (recastStmts c) (ofStmts route ts) (ofStmts route (recastStmts c ts))
  | [] => .pure []
  | t :: ts => by
    refine (ofStmt_follows t).bind fun first => (callsAfter_follows route t).bind fun calls =>
      (ofStmts_follows ts).bind fun rest => ?_
    have joined : recastStmts c (first :: calls ++ rest) =
        first.recast c :: recastStmts c calls ++ recastStmts c rest := by
      simp only [recastStmts_eq, List.map_append, List.map_cons]
    rw [← joined]
    exact .pure _

theorem ofHandlers_follows : ∀ hs : List (Handler Stmt),
    Follows c (recastHandlers c) (ofHandlers route hs) (ofHandlers route (recastHandlers c hs))
  | [] => .pure []
  | h :: hs =>
    (ofHandler_follows h).bind fun _ => (ofHandlers_follows hs).bind fun _ => .pure _

theorem ofHandler_follows : ∀ h : Handler Stmt,
    Follows c (Handler.recast c) (ofHandler route h) (ofHandler route (h.recast c))
  | ⟨_, _, _, body⟩ => (ofStmts_follows body).bind fun _ => .pure _

theorem ofClass_follows : ∀ d : ClassDef Stmt,
    Follows c (ClassDef.recast c) (ofClass route d) (ofClass route (d.recast c))
  | ⟨_, _, _, _, _, body⟩ => (ofStmts_follows body).bind fun _ => .pure _

end

end EntryPoint

/-- Without spans a program has the calls of entry points that it has with them. -/
theorem Tree.Module.invokeEntryPoints_recast (route : String) (module : Module) :
    (module.recast {}).invokeEntryPoints route = (module.invokeEntryPoints route).recast {} := by
  have counts : EntryPoint.Continues {} ⟨module.expressions, module.statements⟩
      ⟨module.expressions, module.statements⟩ := ⟨fun _ => rfl, fun _ => rfl⟩
  have follows := EntryPoint.ofStmts_follows route module.body _ _ counts
  simp only [recastStmts_eq] at follows
  obtain ⟨called, exprs, stmts⟩ := follows
  rw [invokeEntryPoints, invokeEntryPoints, Module.recast, Module.recast, Module.mk.injEq]
  exact ⟨called, (exprs 0).symm, (stmts 0).symm⟩

end SdkUsage
