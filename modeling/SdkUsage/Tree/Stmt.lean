/-
Statements and modules.

`Node` joins statements and expressions, and `Node.children` lists the direct
parts of a node in source order. It is the one description of the shape of
the tree: walks, inference and the tables recurse through it, and
`Node.rank_lt_of_mem_children` is why they end.
-/
import SdkUsage.Tree.Expr

namespace SdkUsage.Tree

/-- A name in an import: a dotted path, or a member in a `from` import. -/
structure Alias where
  span : Span
  name : String
  asName : Option Ident
  deriving DecidableEq

/-- The name an import binds: the one given with `as`, else the first part of
the path. -/
def Alias.boundName (name : Alias) : String :=
  match name.asName with
  | some ident => ident.text
  | none => String.ofList (name.name.toList.takeWhile (· ≠ '.'))

/-- A context of a `with` statement and what it is bound to. -/
structure WithItem where
  context : Expr
  vars : Option Expr

/-- An `except` clause. -/
structure Handler (σ : Type) where
  span : Span
  type : Option Expr
  name : Option Ident
  body : List σ

/-- A function definition. -/
structure FunctionDef (σ : Type) where
  site : Site
  name : Ident
  params : Parameters Expr
  returns : Option Expr
  decorators : List Expr
  body : List σ
  isAsync : Bool

/-- A class definition. -/
structure ClassDef (σ : Type) where
  site : Site
  name : Ident
  bases : List Expr
  keywords : List (Keyword Expr)
  decorators : List Expr
  body : List σ

/-- A statement. -/
inductive Stmt where
  | expr (site : Site) (value : Expr)
  | assign (site : Site) (targets : List Expr) (value : Expr)
  | augAssign (site : Site) (target : Expr) (op : BinOp) (value : Expr)
  | annAssign (site : Site) (target annotation : Expr) (value : Option Expr)
  | importModules (site : Site) (names : List Alias)
  | importFrom (site : Site) (path : Option String) (level : Nat) (names : List Alias)
  | functionDef (definition : FunctionDef Stmt)
  | classDef (definition : ClassDef Stmt)
  | returning (site : Site) (value : Option Expr)
  | branch (site : Site) (test : Expr) (body orelse : List Stmt)
  | whileLoop (site : Site) (test : Expr) (body orelse : List Stmt)
  | forLoop (site : Site) (target iter : Expr) (body orelse : List Stmt) (isAsync : Bool)
  | withBlock (site : Site) (items : List WithItem) (body : List Stmt) (isAsync : Bool)
  | tryBlock (site : Site) (body : List Stmt) (handlers : List (Handler Stmt))
      (orelse finalbody : List Stmt)
  | raising (site : Site) (exc cause : Option Expr)
  | asserting (site : Site) (test : Expr) (message : Option Expr)
  | deleting (site : Site) (targets : List Expr)
  | globals (site : Site) (names : List Ident)
  | nonlocals (site : Site) (names : List Ident)
  | pass (site : Site)
  | breakLoop (site : Site)
  | continueLoop (site : Site)

/-- A function definition of a program. -/
abbrev Function := FunctionDef Stmt

/-- A parsed program with the number of its expressions and statements. -/
structure Module where
  body : List Stmt
  expressions : Nat
  statements : Nat

namespace Stmt

/-- Where a statement stands. -/
def site : Stmt → Site
  | functionDef definition => definition.site
  | classDef definition => definition.site
  | expr site _ | assign site _ _ | augAssign site _ _ _ | annAssign site _ _ _
  | importModules site _ | importFrom site _ _ _ | returning site _ | branch site _ _ _
  | whileLoop site _ _ _ | forLoop site _ _ _ _ _ | withBlock site _ _ _ | tryBlock site _ _ _ _
  | raising site _ _ | asserting site _ _ | deleting site _ | globals site _ | nonlocals site _
  | pass site | breakLoop site | continueLoop site => site

/-- The piece of text a statement was read from. -/
def span (stmt : Stmt) : Span := stmt.site.span

/-- The number of a statement. -/
def index (stmt : Stmt) : Nat := stmt.site.index

end Stmt

/-- A node of the tree. -/
inductive Node where
  | stmt (stmt : Stmt)
  | expr (expr : Expr)

/-- The nodes of a list of statements. -/
def stmtNodes (stmts : List Stmt) : List Node := stmts.map .stmt

/-- The nodes of a list of expressions. -/
def exprNodes (exprs : List Expr) : List Node := exprs.map .expr

/-- Context and target of an item of a `with` statement. -/
def WithItem.children (item : WithItem) : List Expr := item.context :: item.vars.toList

/-- Exception type and body of a handler. -/
def Handler.children (handler : Handler Stmt) : List Node :=
  exprNodes handler.type.toList ++ stmtNodes handler.body

/-- Decorators, parameters, return annotation and body of a function. -/
def FunctionDef.children (definition : Function) : List Node :=
  exprNodes (definition.decorators ++ definition.params.children ++ definition.returns.toList)
    ++ stmtNodes definition.body

/-- Decorators, bases, keywords and body of a class. -/
def ClassDef.children (definition : ClassDef Stmt) : List Node :=
  exprNodes (definition.decorators ++ definition.bases ++ definition.keywords.map (·.value))
    ++ stmtNodes definition.body

/-- The direct parts of a statement, in source order. -/
def Stmt.children : Stmt → List Node
  | expr _ value => [.expr value]
  | assign _ targets value => exprNodes (targets ++ [value])
  | augAssign _ target _ value => [.expr target, .expr value]
  | annAssign _ target annotation value => exprNodes (target :: annotation :: value.toList)
  | functionDef definition => definition.children
  | classDef definition => definition.children
  | returning _ value => exprNodes value.toList
  | branch _ test body orelse | whileLoop _ test body orelse =>
    .expr test :: (stmtNodes body ++ stmtNodes orelse)
  | forLoop _ target iter body orelse _ =>
    .expr target :: .expr iter :: (stmtNodes body ++ stmtNodes orelse)
  | withBlock _ items body _ => exprNodes (items.flatMap WithItem.children) ++ stmtNodes body
  | tryBlock _ body handlers orelse finalbody =>
    stmtNodes body ++ handlers.flatMap Handler.children ++ stmtNodes orelse ++ stmtNodes finalbody
  | raising _ exc cause => exprNodes (exc.toList ++ cause.toList)
  | asserting _ test message => exprNodes (test :: message.toList)
  | deleting _ targets => exprNodes targets
  | importModules .. | importFrom .. | globals .. | nonlocals .. | pass .. | breakLoop ..
  | continueLoop .. => []

namespace Node

/-- The number of a node among the nodes of its sort. -/
def index : Node → Nat
  | stmt s => s.index
  | expr e => e.index

/-- The direct parts of a node, in source order. -/
def children : Node → List Node
  | stmt s => s.children
  | expr e => exprNodes e.children

/-- The size of a node, by which recursion through its parts ends. -/
noncomputable def rank : Node → Nat
  | stmt s => sizeOf s
  | expr e => sizeOf e

@[simp] theorem rank_stmt (s : Stmt) : (stmt s).rank = sizeOf s := rfl

@[simp] theorem rank_expr (e : Expr) : (expr e).rank = sizeOf e := rfl

end Node

/-! ## Size -/

theorem mem_exprNodes {n : Node} {es : List Expr} : n ∈ exprNodes es ↔ ∃ e ∈ es, n = .expr e := by
  simp [exprNodes, eq_comm]

theorem mem_stmtNodes {n : Node} {ss : List Stmt} : n ∈ stmtNodes ss ↔ ∃ s ∈ ss, n = .stmt s := by
  simp [stmtNodes, eq_comm]

theorem rank_lt_of_mem_exprNodes {n : Node} {es : List Expr} (h : n ∈ exprNodes es) :
    n.rank < sizeOf es := by
  obtain ⟨e, he, rfl⟩ := mem_exprNodes.1 h
  exact List.sizeOf_lt_of_mem he

theorem rank_lt_of_mem_stmtNodes {n : Node} {ss : List Stmt} (h : n ∈ stmtNodes ss) :
    n.rank < sizeOf ss := by
  obtain ⟨s, hs, rfl⟩ := mem_stmtNodes.1 h
  exact List.sizeOf_lt_of_mem hs

theorem rank_lt_of_mem_optional {n : Node} {o : Option Expr} (h : n ∈ exprNodes o.toList) :
    n.rank < sizeOf o := by
  obtain ⟨e, he, rfl⟩ := mem_exprNodes.1 h
  exact sizeOf_lt_of_mem_option he

theorem exprNodes_append (as bs : List Expr) :
    exprNodes (as ++ bs) = exprNodes as ++ exprNodes bs := by
  simp [exprNodes]

theorem exprNodes_cons (a : Expr) (as : List Expr) :
    exprNodes (a :: as) = .expr a :: exprNodes as := rfl

theorem exprNodes_flatMap {α : Type} (xs : List α) (f : α → List Expr) :
    exprNodes (xs.flatMap f) = xs.flatMap fun x => exprNodes (f x) :=
  List.map_flatMap

theorem stmtNodes_append (as bs : List Stmt) :
    stmtNodes (as ++ bs) = stmtNodes as ++ stmtNodes bs :=
  List.map_append

theorem Keyword.sizeOf_lt_of_mem {ks : List (Keyword Expr)} {e : Expr}
    (h : e ∈ ks.map (·.value)) : sizeOf e < sizeOf ks := by
  obtain ⟨⟨span, name, value⟩, hk, rfl⟩ := List.mem_map.1 h
  have := List.sizeOf_lt_of_mem hk
  rw [Keyword.mk.sizeOf_spec] at this
  dsimp only
  omega

theorem Handler.rank_lt_of_mem {handler : Handler Stmt} {n : Node} (h : n ∈ handler.children) :
    n.rank < sizeOf handler := by
  obtain ⟨span, type, name, body⟩ := handler
  simp only [Handler.children, List.mem_append] at h
  rcases h with h | h
  · have := rank_lt_of_mem_optional h
    rw [Handler.mk.sizeOf_spec]; omega
  · have := rank_lt_of_mem_stmtNodes h
    rw [Handler.mk.sizeOf_spec]; omega

theorem FunctionDef.rank_lt_of_mem {definition : Function} {n : Node}
    (h : n ∈ definition.children) : n.rank < sizeOf definition := by
  obtain ⟨site, name, params, returns, decorators, body, isAsync⟩ := definition
  simp only [FunctionDef.children, exprNodes_append, List.mem_append] at h
  rcases h with ((h | h) | h) | h
  · have := rank_lt_of_mem_exprNodes h
    rw [FunctionDef.mk.sizeOf_spec]; omega
  · obtain ⟨e, he, rfl⟩ := mem_exprNodes.1 h
    have := Parameters.sizeOf_lt_of_mem he
    rw [Node.rank_expr, FunctionDef.mk.sizeOf_spec]; omega
  · have := rank_lt_of_mem_optional h
    rw [FunctionDef.mk.sizeOf_spec]; omega
  · have := rank_lt_of_mem_stmtNodes h
    rw [FunctionDef.mk.sizeOf_spec]; omega

theorem ClassDef.rank_lt_of_mem {definition : ClassDef Stmt} {n : Node}
    (h : n ∈ definition.children) : n.rank < sizeOf definition := by
  obtain ⟨site, name, bases, keywords, decorators, body⟩ := definition
  simp only [ClassDef.children, exprNodes_append, List.mem_append] at h
  rcases h with ((h | h) | h) | h
  · have := rank_lt_of_mem_exprNodes h
    rw [ClassDef.mk.sizeOf_spec]; omega
  · have := rank_lt_of_mem_exprNodes h
    rw [ClassDef.mk.sizeOf_spec]; omega
  · obtain ⟨e, he, rfl⟩ := mem_exprNodes.1 h
    have := Keyword.sizeOf_lt_of_mem he
    rw [Node.rank_expr, ClassDef.mk.sizeOf_spec]; omega
  · have := rank_lt_of_mem_stmtNodes h
    rw [ClassDef.mk.sizeOf_spec]; omega

theorem WithItem.sizeOf_lt_of_mem {items : List WithItem} {e : Expr}
    (h : e ∈ items.flatMap WithItem.children) : sizeOf e < sizeOf items := by
  obtain ⟨⟨context, vars⟩, hi, he⟩ := List.mem_flatMap.1 h
  have := List.sizeOf_lt_of_mem hi
  simp only [WithItem.children, List.mem_cons] at he
  rw [WithItem.mk.sizeOf_spec] at this
  rcases he with rfl | he
  · omega
  · have := sizeOf_lt_of_mem_option he
    omega

theorem Stmt.rank_lt_of_mem_children {parent : Stmt} {child : Node} (h : child ∈ parent.children) :
    child.rank < sizeOf parent := by
  cases parent <;> simp only [Stmt.children, exprNodes_append, exprNodes_cons, List.mem_append,
    List.mem_cons, List.not_mem_nil, or_false] at h
  case expr => subst h; rw [Node.rank_expr, Stmt.expr.sizeOf_spec]; omega
  case assign =>
    rcases h with h | h | h
    · have := rank_lt_of_mem_exprNodes h; rw [Stmt.assign.sizeOf_spec]; omega
    · subst h; rw [Node.rank_expr, Stmt.assign.sizeOf_spec]; omega
    · simp [exprNodes] at h
  case augAssign =>
    rcases h with rfl | rfl <;> (rw [Node.rank_expr, Stmt.augAssign.sizeOf_spec]; omega)
  case annAssign =>
    rcases h with rfl | rfl | h
    · rw [Node.rank_expr, Stmt.annAssign.sizeOf_spec]; omega
    · rw [Node.rank_expr, Stmt.annAssign.sizeOf_spec]; omega
    · have := rank_lt_of_mem_optional h; rw [Stmt.annAssign.sizeOf_spec]; omega
  case functionDef => have := FunctionDef.rank_lt_of_mem h; rw [Stmt.functionDef.sizeOf_spec]; omega
  case classDef => have := ClassDef.rank_lt_of_mem h; rw [Stmt.classDef.sizeOf_spec]; omega
  case returning => have := rank_lt_of_mem_optional h; rw [Stmt.returning.sizeOf_spec]; omega
  case branch =>
    rcases h with rfl | h | h
    · rw [Node.rank_expr, Stmt.branch.sizeOf_spec]; omega
    · have := rank_lt_of_mem_stmtNodes h; rw [Stmt.branch.sizeOf_spec]; omega
    · have := rank_lt_of_mem_stmtNodes h; rw [Stmt.branch.sizeOf_spec]; omega
  case whileLoop =>
    rcases h with rfl | h | h
    · rw [Node.rank_expr, Stmt.whileLoop.sizeOf_spec]; omega
    · have := rank_lt_of_mem_stmtNodes h; rw [Stmt.whileLoop.sizeOf_spec]; omega
    · have := rank_lt_of_mem_stmtNodes h; rw [Stmt.whileLoop.sizeOf_spec]; omega
  case forLoop =>
    rcases h with rfl | rfl | h | h
    · rw [Node.rank_expr, Stmt.forLoop.sizeOf_spec]; omega
    · rw [Node.rank_expr, Stmt.forLoop.sizeOf_spec]; omega
    · have := rank_lt_of_mem_stmtNodes h; rw [Stmt.forLoop.sizeOf_spec]; omega
    · have := rank_lt_of_mem_stmtNodes h; rw [Stmt.forLoop.sizeOf_spec]; omega
  case withBlock =>
    rcases h with h | h
    · obtain ⟨e, he, rfl⟩ := mem_exprNodes.1 h
      have := WithItem.sizeOf_lt_of_mem he
      rw [Node.rank_expr, Stmt.withBlock.sizeOf_spec]; omega
    · have := rank_lt_of_mem_stmtNodes h; rw [Stmt.withBlock.sizeOf_spec]; omega
  case tryBlock =>
    rcases h with ((h | h) | h) | h
    · have := rank_lt_of_mem_stmtNodes h; rw [Stmt.tryBlock.sizeOf_spec]; omega
    · obtain ⟨handler, hh, hn⟩ := List.mem_flatMap.1 h
      have := Handler.rank_lt_of_mem hn
      have := List.sizeOf_lt_of_mem hh
      rw [Stmt.tryBlock.sizeOf_spec]; omega
    · have := rank_lt_of_mem_stmtNodes h; rw [Stmt.tryBlock.sizeOf_spec]; omega
    · have := rank_lt_of_mem_stmtNodes h; rw [Stmt.tryBlock.sizeOf_spec]; omega
  case raising =>
    rcases h with h | h
    · have := rank_lt_of_mem_optional h; rw [Stmt.raising.sizeOf_spec]; omega
    · have := rank_lt_of_mem_optional h; rw [Stmt.raising.sizeOf_spec]; omega
  case asserting =>
    rcases h with rfl | h
    · rw [Node.rank_expr, Stmt.asserting.sizeOf_spec]; omega
    · have := rank_lt_of_mem_optional h; rw [Stmt.asserting.sizeOf_spec]; omega
  case deleting => have := rank_lt_of_mem_exprNodes h; rw [Stmt.deleting.sizeOf_spec]; omega

/-- **A part of a node is smaller.** Recursion through `Node.children` ends. -/
theorem Node.rank_lt_of_mem_children {parent child : Node} (h : child ∈ parent.children) :
    child.rank < parent.rank := by
  cases parent with
  | stmt s => exact Stmt.rank_lt_of_mem_children h
  | expr e =>
    obtain ⟨c, hc, rfl⟩ := mem_exprNodes.1 h
    exact Expr.sizeOf_lt_of_mem_children hc

end SdkUsage.Tree
