/-
What calling the entry points does to the text of a module. A call is put behind each entry
point that stands outside of functions (`OuterBlock`), and nowhere else; without the statements
that are added the module is what it was.

The statements that are added are told by their numbers, which are not below the number of
statements of the module.
-/
import SdkUsage.Proofs.EntryPoint
import SdkUsage.Proofs.Grammar.Statement

namespace SdkUsage

open SdkUsage.Tree

variable {c : Counts} {ts : List Stmt}

namespace Tree

/-! ## Lists of statements -/

/-- The lists of statements that are reached from a list of statements without going into
functions. -/
inductive OuterBlock (stmts : List Stmt) : List Stmt → Prop
  | whole : OuterBlock stmts stmts
  | inside {block inner t} : OuterBlock stmts block → t ∈ block → (∀ d, t ≠ .functionDef d) →
    inner ∈ t.blocks → OuterBlock stmts inner

mutual

/-- A statement without the statements in it whose number is not below a bound. -/
def Stmt.prune (n : Nat) : Stmt → Stmt
  | .functionDef ⟨site, name, params, returns, decorators, body, isAsync⟩ =>
    .functionDef ⟨site, name, params, returns, decorators, pruneStmts n body, isAsync⟩
  | .classDef ⟨site, name, bases, keywords, decorators, body⟩ =>
    .classDef ⟨site, name, bases, keywords, decorators, pruneStmts n body⟩
  | .branch site test body orelse => .branch site test (pruneStmts n body) (pruneStmts n orelse)
  | .whileLoop site test body orelse =>
    .whileLoop site test (pruneStmts n body) (pruneStmts n orelse)
  | .forLoop site target iter body orelse isAsync =>
    .forLoop site target iter (pruneStmts n body) (pruneStmts n orelse) isAsync
  | .withBlock site items body isAsync => .withBlock site items (pruneStmts n body) isAsync
  | .tryBlock site body handlers orelse finalbody =>
    .tryBlock site (pruneStmts n body) (pruneHandlers n handlers) (pruneStmts n orelse)
      (pruneStmts n finalbody)
  | t => t

/-- Statements without those, among them and in them, whose number is not below a bound. -/
def pruneStmts (n : Nat) : List Stmt → List Stmt
  | [] => []
  | t :: ts => if t.index < n then t.prune n :: pruneStmts n ts else pruneStmts n ts

/-- Handlers without the statements in them whose number is not below a bound. -/
def pruneHandlers (n : Nat) : List (Handler Stmt) → List (Handler Stmt)
  | [] => []
  | ⟨span, type, name, body⟩ :: handlers =>
    ⟨span, type, name, pruneStmts n body⟩ :: pruneHandlers n handlers

end

theorem pruneStmts_append (n : Nat) (ts us : List Stmt) :
    pruneStmts n (ts ++ us) = pruneStmts n ts ++ pruneStmts n us := by
  induction ts with
  | nil => simp [pruneStmts]
  | cons t ts ih =>
    simp only [List.cons_append, pruneStmts, ih]
    split <;> rfl

theorem pruneStmts_eq_nil {n : Nat} (h : ∀ t ∈ ts, n ≤ t.index) : pruneStmts n ts = [] := by
  induction ts with
  | nil => rfl
  | cons t ts ih =>
    rw [List.forall_mem_cons] at h
    rw [pruneStmts, if_neg (Nat.not_lt.2 h.1), ih h.2]

/-- A statement that is a part of another stands in one of its blocks. -/
theorem Stmt.exists_block {t u : Stmt} (h : .stmt u ∈ t.children) :
    ∃ block ∈ t.blocks, u ∈ block := by
  have part := Stmt.mem_children.1 h
  clear h
  cases part with
  | function h =>
    cases h with
    | body h => exact ⟨_, List.mem_singleton_self _, h⟩
  | «class» h =>
    cases h with
    | body h => exact ⟨_, List.mem_singleton_self _, h⟩
  | branchBody h | whileBody h | forBody h | withBody h | tryBody h =>
    exact ⟨_, List.mem_cons_self, h⟩
  | branchElse h | whileElse h | forElse h => exact ⟨_, by simp [blocks], h⟩
  | handler hh h =>
    cases h with
    | body h => exact ⟨_, List.mem_append_left _ (List.mem_cons_of_mem _ (List.mem_map_of_mem hh)), h⟩
  | tryElse h | «finally» h => exact ⟨_, by simp [blocks], h⟩

/-! ## Numbers below a bound -/

/-- All statements in some statements have numbers below a bound. -/
def NumbersBelow (n : Nat) (ts : List Stmt) : Prop :=
  ∀ t, .stmt t ∈ (stmtNodes ts).flatMap Node.preorder → t.index < n

namespace NumbersBelow

variable {n : Nat} {t : Stmt} {ts : List Stmt}

theorem self (h : NumbersBelow n ts) (ht : t ∈ ts) : t.index < n :=
  h t (List.mem_flatMap.2 ⟨_, mem_stmtNodes.2 ⟨t, ht, rfl⟩, Node.mem_preorder_self _⟩)

theorem block (h : NumbersBelow n ts) (ht : t ∈ ts) {block : List Stmt} (hb : block ∈ t.blocks) :
    NumbersBelow n block := by
  intro u hu
  obtain ⟨m, hm, hu⟩ := List.mem_flatMap.1 hu
  obtain ⟨v, hv, rfl⟩ := mem_stmtNodes.1 hm
  have part := mem_of_mem_stmtsOf ((Stmt.sublist_of_mem_blocks hb).subset hv)
  exact h u (List.mem_flatMap.2 ⟨_, mem_stmtNodes.2 ⟨t, ht, rfl⟩,
    Node.mem_preorder_of_mem_children part hu⟩)

theorem tail (h : NumbersBelow n (t :: ts)) : NumbersBelow n ts :=
  fun u hu => h u (List.mem_append_right _ hu)

end NumbersBelow

mutual

theorem Stmt.prune_self {n : Nat} {ts : List Stmt} (h : NumbersBelow n ts) :
    ∀ t : Stmt, t ∈ ts → t.prune n = t
  | .functionDef ⟨_, _, _, _, _, body, _⟩, ht | .classDef ⟨_, _, _, _, _, body⟩, ht
  | .withBlock _ _ body _, ht => by
    rw [Stmt.prune, pruneStmts_self body (h.block ht (List.mem_singleton_self _))]
  | .branch _ _ body orelse, ht | .whileLoop _ _ body orelse, ht
  | .forLoop _ _ _ body orelse _, ht => by
    rw [Stmt.prune, pruneStmts_self body (h.block ht (by simp [Stmt.blocks])),
      pruneStmts_self orelse (h.block ht (by simp [Stmt.blocks]))]
  | .tryBlock _ body handlers orelse finalbody, ht => by
    rw [Stmt.prune, pruneStmts_self body (h.block ht (by simp [Stmt.blocks])),
      pruneHandlers_self handlers fun handler hh => h.block ht (by
        simp only [Stmt.blocks, List.cons_append, List.mem_cons, List.mem_append, List.mem_map]
        exact .inr (.inl ⟨handler, hh, rfl⟩)),
      pruneStmts_self orelse (h.block ht (by simp [Stmt.blocks])),
      pruneStmts_self finalbody (h.block ht (by simp [Stmt.blocks]))]
  | .expr .., _ | .assign .., _ | .augAssign .., _ | .annAssign .., _ | .importModules .., _
  | .importFrom .., _ | .returning .., _ | .raising .., _ | .asserting .., _ | .deleting .., _
  | .globals .., _ | .nonlocals .., _ | .pass _, _ | .breakLoop _, _ | .continueLoop _, _ => rfl

theorem pruneStmts_self {n : Nat} : ∀ ts : List Stmt, NumbersBelow n ts → pruneStmts n ts = ts
  | [], _ => rfl
  | t :: ts, h => by
    rw [pruneStmts, if_pos (h.self List.mem_cons_self), Stmt.prune_self h t List.mem_cons_self,
      pruneStmts_self ts h.tail]

theorem pruneHandlers_self {n : Nat} : ∀ handlers : List (Handler Stmt),
    (∀ handler ∈ handlers, NumbersBelow n handler.body) → pruneHandlers n handlers = handlers
  | [], _ => rfl
  | ⟨_, _, _, body⟩ :: handlers, h => by
    rw [pruneHandlers, pruneStmts_self body (h _ List.mem_cons_self),
      pruneHandlers_self handlers fun handler hh => h handler (List.mem_cons_of_mem _ hh)]

end

end Tree

namespace EntryPoint

variable {route : String} {n : Nat}

/-! ## What is added -/

theorem le_ofStmt (route : String) (t : Stmt) (c : Counts) :
    c.statements ≤ (callsAfter route t (ofStmt route t c).2).2.statements :=
  (ofStmt_extends route t c).grown.stmts.le

theorem le_ofStmts (route : String) (ts : List Stmt) (c : Counts) :
    c.statements ≤ (ofStmts route ts c).2.statements :=
  (ofStmts_extends route ts c).grown.stmts.le

theorem le_ofHandlers (route : String) (handlers : List (Handler Stmt)) (c : Counts) :
    c.statements ≤ (ofHandlers route handlers c).2.statements :=
  (ofHandlers_extends route handlers c).grown.stmts.le

theorem ofStmts_cons (route : String) (t : Stmt) (ts : List Stmt) (c : Counts) :
    (ofStmts route (t :: ts) c).1 = (ofStmt route t c).1 ::
      ((callsAfter route t (ofStmt route t c).2).1 ++
        (ofStmts route ts (callsAfter route t (ofStmt route t c).2).2).1) := rfl

theorem ofStmt_index (route : String) (t : Stmt) (c : Counts) :
    (ofStmt route t c).1.index = t.index := by
  cases t with
  | classDef d => cases d; rfl
  | _ => rfl

/-- Functions are left as they are, and nothing else becomes a function. -/
theorem ofStmt_eq_functionDef {t : Stmt} {d : Function} :
    (ofStmt route t c).1 = .functionDef d ↔ t = .functionDef d := by
  cases t with
  | functionDef d' => exact Iff.rfl
  | _ => exact ⟨nofun, nofun⟩

theorem callsAfter_eq_nil {t : Stmt} (ht : ∀ d, t = .functionDef d → d.isEntryPoint route = false)
    (c : Counts) : callsAfter route t c = ([], c) := by
  cases t with
  | functionDef d => exact if_neg (Bool.eq_false_iff.1 (ht d rfl))
  | _ => rfl

theorem callsAfter_entryPoint {d : Function} (hd : d.isEntryPoint route = true) (c : Counts) :
    callsAfter route (.functionDef d) c = ([callOf d c], c.next) := if_pos hd

/-- A statement that is added calls the entry point before it. -/
theorem mem_callsAfter {t s : Stmt} (hs : s ∈ (callsAfter route t (ofStmt route t c).2).1) :
    ∃ d, t = .functionDef d ∧ d.isEntryPoint route = true ∧ s = callOf d c := by
  by_cases h : ∃ d, t = .functionDef d ∧ d.isEntryPoint route = true
  · obtain ⟨d, rfl, hd⟩ := h
    rw [callsAfter_entryPoint hd] at hs
    exact ⟨d, rfl, hd, List.mem_singleton.1 hs⟩
  · rw [callsAfter_eq_nil fun d hd => Bool.eq_false_iff.2 fun entry => h ⟨d, hd, entry⟩] at hs
    cases hs

/-! ## Taking it away again -/

mutual

theorem prune_ofStmt {ts : List Stmt} (h : NumbersBelow n ts) : ∀ (t : Stmt), t ∈ ts →
    ∀ c : Counts, n ≤ c.statements → (ofStmt route t c).1.prune n = t
  | .branch _ _ body orelse, ht, c, hc =>
    congrArg₂ (Stmt.branch _ _)
      (prune_ofStmts body (h.block ht (by simp [Stmt.blocks])) c hc)
      (prune_ofStmts orelse (h.block ht (by simp [Stmt.blocks])) _ (hc.trans (le_ofStmts ..)))
  | .whileLoop _ _ body orelse, ht, c, hc =>
    congrArg₂ (Stmt.whileLoop _ _)
      (prune_ofStmts body (h.block ht (by simp [Stmt.blocks])) c hc)
      (prune_ofStmts orelse (h.block ht (by simp [Stmt.blocks])) _ (hc.trans (le_ofStmts ..)))
  | .forLoop _ target iter body orelse isAsync, ht, c, hc =>
    congrArg₂ (Stmt.forLoop _ target iter · · isAsync)
      (prune_ofStmts body (h.block ht (by simp [Stmt.blocks])) c hc)
      (prune_ofStmts orelse (h.block ht (by simp [Stmt.blocks])) _ (hc.trans (le_ofStmts ..)))
  | .withBlock _ items body isAsync, ht, c, hc =>
    congrArg (Stmt.withBlock _ items · isAsync)
      (prune_ofStmts body (h.block ht (List.mem_singleton_self _)) c hc)
  | .tryBlock _ body handlers orelse finalbody, ht, c, hc => by
    have hhandlers : n ≤ (ofStmts route body c).2.statements := hc.trans (le_ofStmts ..)
    have horelse := hhandlers.trans (le_ofHandlers route handlers _)
    have hfinal := horelse.trans (le_ofStmts route orelse _)
    show Stmt.tryBlock _ (pruneStmts n (ofStmts route body c).1) _ _ _ = _
    rw [prune_ofStmts body (h.block ht (by simp [Stmt.blocks])) c hc,
      prune_ofHandlers handlers (fun handler hh => h.block ht (by
        simp only [Stmt.blocks, List.cons_append, List.mem_cons, List.mem_append, List.mem_map]
        exact .inr (.inl ⟨handler, hh, rfl⟩))) _ hhandlers,
      prune_ofStmts orelse (h.block ht (by simp [Stmt.blocks])) _ horelse,
      prune_ofStmts finalbody (h.block ht (by simp [Stmt.blocks])) _ hfinal]
  | .classDef ⟨site, name, bases, keywords, decorators, body⟩, ht, c, hc =>
    congrArg (fun body => Stmt.classDef ⟨site, name, bases, keywords, decorators, body⟩)
      (prune_ofStmts body (h.block ht (List.mem_singleton_self _)) c hc)
  | .functionDef _, ht, _, _ => Stmt.prune_self h _ ht
  | .expr .., _, _, _ | .assign .., _, _, _ | .augAssign .., _, _, _ | .annAssign .., _, _, _
  | .importModules .., _, _, _ | .importFrom .., _, _, _ | .returning .., _, _, _
  | .raising .., _, _, _ | .asserting .., _, _, _ | .deleting .., _, _, _ | .globals .., _, _, _
  | .nonlocals .., _, _, _ | .pass _, _, _, _ | .breakLoop _, _, _, _
  | .continueLoop _, _, _, _ => rfl

theorem prune_ofStmts : ∀ (ts : List Stmt), NumbersBelow n ts →
    ∀ c : Counts, n ≤ c.statements → pruneStmts n (ofStmts route ts c).1 = ts
  | [], _, _, _ => rfl
  | t :: ts, h, c, hc => by
    have calls : pruneStmts n (callsAfter route t (ofStmt route t c).2).1 = [] :=
      pruneStmts_eq_nil fun s hs => by
        obtain ⟨d, -, -, rfl⟩ := mem_callsAfter hs
        exact hc
    rw [ofStmts_cons, pruneStmts, ofStmt_index, if_pos (h.self List.mem_cons_self),
      prune_ofStmt h t List.mem_cons_self c hc, pruneStmts_append, calls, List.nil_append,
      prune_ofStmts ts h.tail _ (hc.trans (le_ofStmt route t c))]

theorem prune_ofHandlers : ∀ (handlers : List (Handler Stmt)),
    (∀ handler ∈ handlers, NumbersBelow n handler.body) →
    ∀ c : Counts, n ≤ c.statements → pruneHandlers n (ofHandlers route handlers c).1 = handlers
  | [], _, _, _ => rfl
  | ⟨_, _, _, body⟩ :: handlers, h, c, hc => by
    show Handler.mk _ _ _ (pruneStmts n (ofStmts route body c).1) :: _ = _
    rw [prune_ofStmts body (h _ List.mem_cons_self) c hc,
      prune_ofHandlers handlers (fun handler hh => h handler (List.mem_cons_of_mem _ hh)) _
        (hc.trans (le_ofStmts ..))]

end

/-! ## Where it stands -/

/-- A statement that calls a function by its name, without arguments. -/
def CallsPlainly (name : String) (t : Stmt) : Prop :=
  ∃ site call func, t = .expr site (.call call (.name func name) [] [])

/-- In a list of statements, each entry point is followed by a statement that is added and calls
it, and no other statements are added. -/
structure Followed (route : String) (n : Nat) (block : List Stmt) : Prop where
  called : ∀ front d back, block = front ++ .functionDef d :: back → d.isEntryPoint route = true →
    ∃ call rest, back = call :: rest ∧ n ≤ call.index ∧ CallsPlainly d.name.text call
  preceded : ∀ front t back, block = front ++ t :: back → n ≤ t.index →
    ∃ before d, front = before ++ [.functionDef d] ∧ d.isEntryPoint route = true

namespace Followed

variable {block : List Stmt}

theorem nil : Followed route n [] where
  called := by simp
  preceded := by simp

theorem cons (h : Followed route n block) {t : Stmt} (hi : t.index < n)
    (ht : ∀ d, t = .functionDef d → d.isEntryPoint route = false) :
    Followed route n (t :: block) where
  called := by
    intro front d back heq hd
    rcases List.cons_eq_append_iff.1 heq with ⟨rfl, first⟩ | ⟨front, rfl, rest⟩
    · cases first
      exact absurd hd (Bool.eq_false_iff.1 (ht d rfl))
    · exact h.called front d back rest hd
  preceded := by
    intro front u back heq hu
    rcases List.cons_eq_append_iff.1 heq with ⟨rfl, first⟩ | ⟨front, rfl, rest⟩
    · cases first
      omega
    · obtain ⟨before, d, rfl, hd⟩ := h.preceded front u back rest hu
      exact ⟨t :: before, d, rfl, hd⟩

theorem call (h : Followed route n block) {d : Function} (hi : d.site.index < n)
    (hd : d.isEntryPoint route = true) {c : Counts} (hc : n ≤ c.statements) :
    Followed route n (.functionDef d :: callOf d c :: block) where
  called := by
    intro front f back heq hf
    rcases List.cons_eq_append_iff.1 heq with ⟨rfl, first⟩ | ⟨front, rfl, rest⟩
    · cases first
      exact ⟨_, block, rfl, hc, _, _, _, rfl⟩
    · rcases List.cons_eq_append_iff.1 rest with ⟨rfl, second⟩ | ⟨front, rfl, tail⟩
      · cases second
      · exact h.called front f back tail hf
  preceded := by
    intro front u back heq hu
    rcases List.cons_eq_append_iff.1 heq with ⟨rfl, first⟩ | ⟨front, rfl, rest⟩
    · cases first
      exact absurd hi (Nat.not_lt.2 hu)
    · rcases List.cons_eq_append_iff.1 rest with ⟨rfl, second⟩ | ⟨front, rfl, tail⟩
      · exact ⟨[], d, rfl, hd⟩
      · obtain ⟨before, f, rfl, hf⟩ := h.preceded front u back tail hu
        exact ⟨.functionDef d :: callOf d c :: before, f, rfl, hf⟩

end Followed

theorem ofStmts_followed (ts : List Stmt) (h : NumbersBelow n ts) (c : Counts)
    (hc : n ≤ c.statements) : Followed route n (ofStmts route ts c).1 := by
  induction ts generalizing c with
  | nil => exact .nil
  | cons t ts ih =>
    have rest := ih h.tail _ (hc.trans (le_ofStmt route t c))
    have below : t.index < n := h.self List.mem_cons_self
    rw [ofStmts_cons]
    by_cases entry : ∃ d, t = .functionDef d ∧ d.isEntryPoint route = true
    · obtain ⟨d, rfl, hd⟩ := entry
      rw [show callsAfter route (.functionDef d) (ofStmt route (.functionDef d) c).2 = _ from
        callsAfter_entryPoint hd c] at rest ⊢
      exact rest.call below hd hc
    · have plain : ∀ d, t = .functionDef d → d.isEntryPoint route = false :=
        fun d hd => Bool.eq_false_iff.2 fun h => entry ⟨d, hd, h⟩
      rw [callsAfter_eq_nil plain] at rest ⊢
      exact rest.cons (ofStmt_index route t c ▸ below) fun d hd =>
        plain d (ofStmt_eq_functionDef.1 hd)

/-- The statements of a list with calls are those of the list, with calls in them, and calls. -/
theorem mem_ofStmts {s : Stmt} (hs : s ∈ (ofStmts route ts c).1) :
    ∃ t ∈ ts, ∃ c', c.statements ≤ c'.statements ∧
      (s = (ofStmt route t c').1 ∨ ∃ d, t = .functionDef d ∧ s = callOf d c') := by
  induction ts generalizing c with
  | nil => cases hs
  | cons t ts ih =>
    rw [ofStmts_cons, List.mem_cons, List.mem_append] at hs
    rcases hs with rfl | hs | hs
    · exact ⟨t, List.mem_cons_self, c, Nat.le_refl _, .inl rfl⟩
    · obtain ⟨d, ht, -, rfl⟩ := mem_callsAfter hs
      exact ⟨t, List.mem_cons_self, c, Nat.le_refl _, .inr ⟨d, ht, rfl⟩⟩
    · obtain ⟨u, hu, c', hc', hs⟩ := ih hs
      exact ⟨u, List.mem_cons_of_mem _ hu, c', (le_ofStmt route t c).trans hc', hs⟩

theorem mem_ofHandlers {handlers : List (Handler Stmt)} {handler' : Handler Stmt}
    (h : handler' ∈ (ofHandlers route handlers c).1) : ∃ handler ∈ handlers, ∃ c',
      c.statements ≤ c'.statements ∧ handler'.body = (ofStmts route handler.body c').1 := by
  induction handlers generalizing c with
  | nil => cases h
  | cons handler handlers ih =>
    obtain ⟨span, type, name, body⟩ := handler
    rcases List.mem_cons.1 h with rfl | h
    · exact ⟨_, List.mem_cons_self, c, Nat.le_refl _, rfl⟩
    · obtain ⟨other, ho, c', hc', heq⟩ := ih h
      exact ⟨other, List.mem_cons_of_mem _ ho, c', (le_ofStmts route body c).trans hc', heq⟩

/-- The blocks of a statement with calls are its blocks with calls, functions apart. -/
theorem mem_blocks_ofStmt {t : Stmt} (ht : ∀ d, t ≠ .functionDef d) {block : List Stmt}
    (hb : block ∈ (ofStmt route t c).1.blocks) :
    ∃ ts ∈ t.blocks, ∃ c', c.statements ≤ c'.statements ∧ block = (ofStmts route ts c').1 := by
  have first {body : List Stmt} (hbody : body ∈ t.blocks) (heq : block = (ofStmts route body c).1) :
      ∃ ts ∈ t.blocks, ∃ c', c.statements ≤ c'.statements ∧ block = (ofStmts route ts c').1 :=
    ⟨body, hbody, c, Nat.le_refl _, heq⟩
  cases t with
  | functionDef d => exact absurd rfl (ht d)
  | classDef d =>
    obtain ⟨_, _, _, _, _, body⟩ := d
    exact first (List.mem_singleton_self _) (List.mem_singleton.1 hb)
  | withBlock => exact first (List.mem_singleton_self _) (List.mem_singleton.1 hb)
  | branch _ _ body orelse | whileLoop _ _ body orelse | forLoop _ _ _ body orelse _ =>
    rcases List.mem_pair.1 hb with heq | heq
    · exact first (by simp [Stmt.blocks]) heq
    · exact ⟨orelse, by simp [Stmt.blocks], _, le_ofStmts route body c, heq⟩
  | tryBlock _ body handlers orelse finalbody =>
    have toElse := (le_ofStmts route body c).trans (le_ofHandlers route handlers _)
    have hb : block ∈ (ofStmts route body c).1 ::
        (ofHandlers route handlers (ofStmts route body c).2).1.map (·.body) ++ [_, _] := hb
    simp only [List.cons_append, List.mem_cons, List.mem_append, List.mem_map, List.not_mem_nil,
      or_false] at hb
    rcases hb with heq | ⟨handler', hh, rfl⟩ | heq | heq
    · exact first (by simp [Stmt.blocks]) heq
    · obtain ⟨handler, hh, c', hc', heq⟩ := mem_ofHandlers hh
      exact ⟨handler.body, by
        simp only [Stmt.blocks, List.cons_append, List.mem_cons, List.mem_append, List.mem_map]
        exact .inr (.inl ⟨handler, hh, rfl⟩), c', (le_ofStmts route body c).trans hc', heq⟩
    · exact ⟨orelse, by simp [Stmt.blocks], _, toElse, heq⟩
    · exact ⟨finalbody, by simp [Stmt.blocks], _, toElse.trans (le_ofStmts route orelse _), heq⟩
  | _ => cases hb

/-- The lists reached without going into functions come from such lists. -/
theorem exists_of_outerBlock (h : NumbersBelow n ts) (hc : n ≤ c.statements) {block : List Stmt}
    (hb : OuterBlock (ofStmts route ts c).1 block) :
    ∃ us c', NumbersBelow n us ∧ n ≤ c'.statements ∧ block = (ofStmts route us c').1 := by
  induction hb with
  | whole => exact ⟨ts, c, h, hc, rfl⟩
  | @inside block inner s _ hs hf hi ih =>
    obtain ⟨us, c', below, hc', rfl⟩ := ih
    obtain ⟨u, hu, c'', hc'', rfl | ⟨d, -, rfl⟩⟩ := mem_ofStmts hs
    · obtain ⟨vs, hvs, last, hlast, rfl⟩ :=
        mem_blocks_ofStmt (fun d hd => hf d (ofStmt_eq_functionDef.2 hd)) hi
      exact ⟨vs, last, below.block hu hvs, (hc'.trans hc'').trans hlast, rfl⟩
    · cases hi

/-- A statement that is added stands outside of functions. -/
theorem exists_outerBlock_of_le {ts : List Stmt} (h : NumbersBelow n ts) {c : Counts}
    (hc : n ≤ c.statements) {block : List Stmt} (hb : OuterBlock (ofStmts route ts c).1 block)
    {t u : Stmt} (ht : t ∈ block) (hu : .stmt u ∈ (Node.stmt t).preorder) (hi : n ≤ u.index) :
    ∃ inner, OuterBlock (ofStmts route ts c).1 inner ∧ u ∈ inner := by
  rcases Node.mem_preorder_cases hu with heq | ⟨child, hchild, hbelow⟩
  · cases heq
    exact ⟨block, hb, ht⟩
  · cases child with
    | expr e =>
      obtain ⟨e', he⟩ := Node.exists_expr_of_mem_preorder hbelow
      cases he
    | stmt v =>
      obtain ⟨inner, hinner, hv⟩ := Stmt.exists_block hchild
      by_cases hf : ∃ d, t = .functionDef d
      · -- A function is what it was, and so has small numbers only.
        obtain ⟨d, rfl⟩ := hf
        obtain ⟨us, c', below, hc', rfl⟩ := exists_of_outerBlock h hc hb
        obtain ⟨w, hw, c'', -, heq | ⟨f, -, heq⟩⟩ := mem_ofStmts ht
        · cases ofStmt_eq_functionDef.1 heq.symm
          have := below u (List.mem_flatMap.2 ⟨_, mem_stmtNodes.2 ⟨_, hw, rfl⟩, hu⟩)
          omega
        · cases heq
      · exact exists_outerBlock_of_le h hc
          (.inside hb ht (fun d hd => hf ⟨d, hd⟩) hinner) hv hbelow hi
termination_by (Node.stmt t).rank
decreasing_by exact Node.rank_lt_of_mem_children hchild

/-! ## How many there are -/

/-- A call has two expressions. -/
theorem Extends.expressions {old new : List Node} {c' : Counts} (h : Extends route old new c c') :
    c'.expressions + 2 * c.statements = c.expressions + 2 * c'.statements := by
  induction h with
  | refl c _ => rfl
  | append _ _ ih ih' => omega
  | stmt _ _ ih => exact ih
  | call c _ =>
    simp only [Counts.next]
    omega

theorem Gained.countP {old new : List Nat} {first next : Nat} (h : Gained old new first next)
    (ho : ∀ i ∈ old, i < first) : next = first + new.countP (first ≤ ·) := by
  obtain ⟨count, rfl, hp⟩ := h
  have none : old.countP (first ≤ ·) = 0 :=
    List.countP_eq_zero.2 fun i hi => by simpa using ho i hi
  have all : (List.range' first count).countP (first ≤ ·) = count := by
    refine (List.countP_eq_length.2 fun i hi => ?_).trans List.length_range'
    simpa using (List.mem_range'_1.1 hi).1
  rw [hp.countP_eq, List.countP_append, none, all, Nat.zero_add]

end EntryPoint

/-- **Calling the entry points adds their calls and nothing else.** Without the statements that
are added, which are those with new numbers, a module is what it was. In the lists of statements
that are reached without going into functions, each entry point is followed by one such statement,
which calls it by its name; there are no others, in these lists or elsewhere. Each has the
next number, and its two expressions have the next two. -/
theorem entry_points_called {source : Source} {module : Module} (hp : parse source = .ok module)
    (route : String) :
    let whole := module.invokeEntryPoints route
    let added := (whole.nodes.filterMap Node.stmtNumber?).countP (module.statements ≤ ·)
    pruneStmts module.statements whole.body = module.body ∧
    (∀ block, OuterBlock whole.body block → EntryPoint.Followed route module.statements block) ∧
    (∀ t, .stmt t ∈ whole.nodes → module.statements ≤ t.index →
      ∃ block, OuterBlock whole.body block ∧ t ∈ block) ∧
    whole.statements = module.statements + added ∧
    whole.expressions = module.expressions + 2 * added := by
  intro whole added
  have hm := numbered_of_parse hp
  have below : NumbersBelow module.statements module.body := fun t ht => hm.stmt_lt ht
  have grows := EntryPoint.ofStmts_extends route module.body
    ⟨module.expressions, module.statements⟩
  have count : whole.statements = module.statements + added :=
    grows.grown.stmts.countP fun i hi => List.mem_range.1 (hm.stmts.subset hi)
  refine ⟨EntryPoint.prune_ofStmts module.body below _ (Nat.le_refl _), fun block hb => ?_,
    fun t ht hi => ?_, count, ?_⟩
  · obtain ⟨us, c, hus, hc, rfl⟩ := EntryPoint.exists_of_outerBlock below (Nat.le_refl _) hb
    exact EntryPoint.ofStmts_followed us hus c hc
  · obtain ⟨m, hm, ht⟩ := List.mem_flatMap.1 ht
    obtain ⟨u, hu, rfl⟩ := mem_stmtNodes.1 hm
    exact EntryPoint.exists_outerBlock_of_le below (Nat.le_refl _) .whole hu ht hi
  · have both : whole.expressions + 2 * module.statements
        = module.expressions + 2 * whole.statements := grows.expressions
    omega

/-- Handlers in a function, in a class and in the branches of a `try` statement. -/
def scatteredHandlers : Source where
  file := "main.py"
  text := "@app.route('/')\ndef f():\n  @app.route('/g')\n  def g(): pass\nclass C:\n  try:\n"
    ++ "    @app.route('/h')\n    def h(): pass\n  except E:\n    @app.route('/h')\n"
    ++ "    async def h(): pass\n    f()\n  finally: pass\n"

theorem scatteredHandlers_called : ∃ module, parse scatteredHandlers = .ok module ∧
    pruneStmts 11 (module.invokeEntryPoints "route").body = module.body ∧
    (module.invokeEntryPoints "route").statements = 11 + 3 ∧
    (module.invokeEntryPoints "route").expressions = module.expressions + 2 * 3 := by
  have counts : (parse scatteredHandlers).toOption.any (fun module => module.statements = 11 &&
      (module.invokeEntryPoints "route").statements = 14) = true := by
    decide +kernel
  cases hp : parse scatteredHandlers with
  | error e =>
    rw [hp] at counts
    cases counts
  | ok module =>
    simp only [hp, Except.toOption, Option.any_some, Bool.and_eq_true, decide_eq_true_eq] at counts
    obtain ⟨pruned, -, -, statements, expressions⟩ := entry_points_called hp "route"
    rw [counts.1] at pruned statements expressions
    rw [counts.2] at statements
    exact ⟨module, rfl, pruned, counts.2, by omega⟩

end SdkUsage
