/-
Expressions. Every node has a site: the span it was read from and its index,
by which tables attach data to it.

Parts that belong to no single expression (keyword arguments, comprehension
clauses, parameters) are records over the type of expressions.
`Expr.children` lists the direct subexpressions in source order; functions
over expressions recurse through it.
-/
import SdkUsage.Span

namespace SdkUsage.Tree

/-- Where a node was read from, and its number among the nodes of its sort. -/
structure Site where
  span : Span
  index : Nat
  deriving DecidableEq, Inhabited

/-- A name as it was written. -/
structure Ident where
  text : String
  span : Span
  deriving DecidableEq, Inhabited

/-- How a string was written. Only plain strings are literals: bytes are not
text, and the value of a formatted string depends on what it interpolates. -/
inductive StrKind where
  | plain
  | bytes
  | formatted
  deriving DecidableEq

/-- Names and marks that stand for a fixed value. -/
inductive Constant where
  | none
  | true
  | false
  | ellipsis
  deriving DecidableEq

inductive UnaryOp where
  | not
  | neg
  | pos
  | invert
  deriving DecidableEq

inductive BinOp where
  | add
  | sub
  | mul
  | matMul
  | div
  | floorDiv
  | mod
  | pow
  | leftShift
  | rightShift
  | bitOr
  | bitXor
  | bitAnd
  deriving DecidableEq

inductive BoolOp where
  | and
  | or
  deriving DecidableEq

inductive CompareOp where
  | eq
  | notEq
  | lt
  | ltEq
  | gt
  | gtEq
  | is
  | isNot
  | isIn
  | notIn
  deriving DecidableEq

/-- A keyword argument `name=value`, or `**value` without a name. -/
structure Keyword (ε : Type) where
  span : Span
  name : Option Ident
  value : ε

/-- A clause `for target in iter if …` of a comprehension. -/
structure Comprehension (ε : Type) where
  span : Span
  target : ε
  iter : ε
  conditions : List ε
  isAsync : Bool

/-- A parameter of a function. -/
structure Param (ε : Type) where
  name : Ident
  annotation : Option ε
  default : Option ε

/-- The parameters of a function: positional ones (positional-only ones
included), `*rest`, those that can only be given by name, and `**rest`. -/
structure Parameters (ε : Type) where
  args : List (Param ε)
  vararg : Option (Param ε)
  keywordOnly : List (Param ε)
  kwarg : Option (Param ε)

/-- All parameters, in the order in which they are written. -/
def Parameters.all {ε : Type} (params : Parameters ε) : List (Param ε) :=
  params.args ++ params.vararg.toList ++ params.keywordOnly ++ params.kwarg.toList

/-- An entry `key: value` of a dictionary, or `**value` without a key. -/
structure DictItem (ε : Type) where
  key : Option ε
  value : ε

/-- One link of a chain of comparisons. -/
structure Comparison (ε : Type) where
  op : CompareOp
  operand : ε

/-- An expression. -/
inductive Expr where
  | name (site : Site) (id : String)
  | str (site : Site) (value : String) (kind : StrKind)
  | number (site : Site) (text : String)
  | constant (site : Site) (value : Constant)
  | member (site : Site) (value : Expr) (attr : Ident)
  | subscript (site : Site) (value index : Expr)
  | slice (site : Site) (lower upper step : Option Expr)
  | call (site : Site) (func : Expr) (args : List Expr) (keywords : List (Keyword Expr))
  | starred (site : Site) (value : Expr)
  | list (site : Site) (items : List Expr)
  | tuple (site : Site) (items : List Expr)
  | set (site : Site) (items : List Expr)
  | dict (site : Site) (items : List (DictItem Expr))
  | listComp (site : Site) (element : Expr) (clauses : List (Comprehension Expr))
  | setComp (site : Site) (element : Expr) (clauses : List (Comprehension Expr))
  | generator (site : Site) (element : Expr) (clauses : List (Comprehension Expr))
  | dictComp (site : Site) (key value : Expr) (clauses : List (Comprehension Expr))
  | lambda (site : Site) (params : Parameters Expr) (body : Expr)
  | unary (site : Site) (op : UnaryOp) (operand : Expr)
  | binary (site : Site) (op : BinOp) (lhs rhs : Expr)
  | boolean (site : Site) (op : BoolOp) (lhs rhs : Expr)
  | compare (site : Site) (lhs : Expr) (links : List (Comparison Expr))
  | conditional (site : Site) (test body orelse : Expr)
  | named (site : Site) (target value : Expr)
  | await (site : Site) (value : Expr)
  | yield (site : Site) (value : Option Expr) (delegates : Bool)

/-- The expressions in a clause of a comprehension, in source order. -/
def Comprehension.children {ε : Type} (clause : Comprehension ε) : List ε :=
  clause.target :: clause.iter :: clause.conditions

/-- Annotation and default of a parameter. -/
def Param.children {ε : Type} (param : Param ε) : List ε :=
  param.annotation.toList ++ param.default.toList

/-- Annotations and defaults of all parameters, in source order. -/
def Parameters.children {ε : Type} (params : Parameters ε) : List ε :=
  params.all.flatMap Param.children

/-- Key and value of a dictionary entry. -/
def DictItem.children {ε : Type} (item : DictItem ε) : List ε :=
  item.key.toList ++ [item.value]

namespace Expr

/-- Where an expression stands. -/
def site : Expr → Site
  | name site _ | str site _ _ | number site _ | constant site _ | member site _ _
  | subscript site _ _ | slice site _ _ _ | call site _ _ _ | starred site _ | list site _
  | tuple site _ | set site _ | dict site _ | listComp site _ _ | setComp site _ _
  | generator site _ _ | dictComp site _ _ _ | lambda site _ _ | unary site _ _
  | binary site _ _ _ | boolean site _ _ _ | compare site _ _ | conditional site _ _ _
  | named site _ _ | await site _ | yield site _ _ => site

/-- The piece of text an expression was read from. -/
def span (expr : Expr) : Span := expr.site.span

/-- The number of an expression. -/
def index (expr : Expr) : Nat := expr.site.index

/-- The direct subexpressions, in source order. -/
def children : Expr → List Expr
  | name .. | str .. | number .. | constant .. => []
  | member _ value _ | starred _ value | await _ value => [value]
  | subscript _ value index => [value, index]
  | slice _ lower upper step => lower.toList ++ upper.toList ++ step.toList
  | call _ func args keywords => func :: args ++ keywords.map (·.value)
  | list _ items | tuple _ items | set _ items => items
  | dict _ items => items.flatMap DictItem.children
  | listComp _ element clauses | setComp _ element clauses | generator _ element clauses =>
    element :: clauses.flatMap Comprehension.children
  | dictComp _ key value clauses => key :: value :: clauses.flatMap Comprehension.children
  | lambda _ params body => params.children ++ [body]
  | unary _ _ operand => [operand]
  | binary _ _ lhs rhs | boolean _ _ lhs rhs => [lhs, rhs]
  | compare _ lhs links => lhs :: links.map (·.operand)
  | conditional _ test body orelse => [test, body, orelse]
  | named _ target value => [target, value]
  | yield _ value _ => value.toList

/-- The value of a plain string literal. -/
def literal? : Expr → Option String
  | str _ value .plain => some value
  | _ => none

end Expr

/-! ## Size -/

theorem sizeOf_lt_of_mem_option {α : Type} [SizeOf α] {a : α} {o : Option α} (h : a ∈ o.toList) :
    sizeOf a < sizeOf o := by
  cases o with
  | none => simp at h
  | some b =>
    simp only [Option.toList_some, List.mem_singleton] at h
    subst h
    simp

theorem Comprehension.sizeOf_lt_of_mem {c : Comprehension Expr} {e : Expr} (h : e ∈ c.children) :
    sizeOf e < sizeOf c := by
  obtain ⟨span, target, iter, conditions, isAsync⟩ := c
  simp only [Comprehension.children, List.mem_cons] at h
  rcases h with rfl | rfl | h
  · rw [Comprehension.mk.sizeOf_spec]; omega
  · rw [Comprehension.mk.sizeOf_spec]; omega
  · have := List.sizeOf_lt_of_mem h
    rw [Comprehension.mk.sizeOf_spec]; omega

theorem DictItem.sizeOf_lt_of_mem {i : DictItem Expr} {e : Expr} (h : e ∈ i.children) :
    sizeOf e < sizeOf i := by
  obtain ⟨key, value⟩ := i
  simp only [DictItem.children, List.mem_append, List.mem_singleton] at h
  rcases h with h | rfl
  · have := sizeOf_lt_of_mem_option h
    rw [DictItem.mk.sizeOf_spec]; omega
  · rw [DictItem.mk.sizeOf_spec]; omega

theorem Param.sizeOf_lt_of_mem {p : Param Expr} {e : Expr} (h : e ∈ p.children) :
    sizeOf e < sizeOf p := by
  obtain ⟨name, annotation, default⟩ := p
  simp only [Param.children, List.mem_append] at h
  rcases h with h | h <;>
  · have := sizeOf_lt_of_mem_option h
    rw [Param.mk.sizeOf_spec]; omega

theorem Parameters.sizeOf_lt_of_mem_all {ps : Parameters Expr} {p : Param Expr} (h : p ∈ ps.all) :
    sizeOf p < sizeOf ps := by
  obtain ⟨args, vararg, keywordOnly, kwarg⟩ := ps
  simp only [Parameters.all, List.mem_append] at h
  rcases h with ((h | h) | h) | h
  · have := List.sizeOf_lt_of_mem h
    rw [Parameters.mk.sizeOf_spec]; omega
  · have := sizeOf_lt_of_mem_option h
    rw [Parameters.mk.sizeOf_spec]; omega
  · have := List.sizeOf_lt_of_mem h
    rw [Parameters.mk.sizeOf_spec]; omega
  · have := sizeOf_lt_of_mem_option h
    rw [Parameters.mk.sizeOf_spec]; omega

theorem Parameters.sizeOf_lt_of_mem {ps : Parameters Expr} {e : Expr} (h : e ∈ ps.children) :
    sizeOf e < sizeOf ps := by
  obtain ⟨p, hp, he⟩ := List.mem_flatMap.1 h
  exact Nat.lt_trans (Param.sizeOf_lt_of_mem he) (sizeOf_lt_of_mem_all hp)

theorem sizeOf_lt_of_mem_clauses {cs : List (Comprehension Expr)} {e : Expr}
    (h : e ∈ cs.flatMap Comprehension.children) : sizeOf e < sizeOf cs := by
  obtain ⟨c, hc, he⟩ := List.mem_flatMap.1 h
  exact Nat.lt_trans (Comprehension.sizeOf_lt_of_mem he) (List.sizeOf_lt_of_mem hc)

/-- **A subexpression is smaller.** Recursion through `Expr.children` ends. -/
theorem Expr.sizeOf_lt_of_mem_children {parent child : Expr} (h : child ∈ parent.children) :
    sizeOf child < sizeOf parent := by
  cases parent <;> simp only [children, List.mem_cons, List.mem_append, List.not_mem_nil,
    or_false, List.mem_map, List.cons_append] at h
  case member => subst h; rw [Expr.member.sizeOf_spec]; omega
  case starred => subst h; rw [Expr.starred.sizeOf_spec]; omega
  case await => subst h; rw [Expr.await.sizeOf_spec]; omega
  case unary => subst h; rw [Expr.unary.sizeOf_spec]; omega
  case subscript => rcases h with rfl | rfl <;> (rw [Expr.subscript.sizeOf_spec]; omega)
  case binary => rcases h with rfl | rfl <;> (rw [Expr.binary.sizeOf_spec]; omega)
  case boolean => rcases h with rfl | rfl <;> (rw [Expr.boolean.sizeOf_spec]; omega)
  case named => rcases h with rfl | rfl <;> (rw [Expr.named.sizeOf_spec]; omega)
  case conditional => rcases h with rfl | rfl | rfl <;> (rw [Expr.conditional.sizeOf_spec]; omega)
  case slice =>
    rcases h with (h | h) | h <;>
    · have := sizeOf_lt_of_mem_option h
      rw [Expr.slice.sizeOf_spec]; omega
  case yield =>
    have := sizeOf_lt_of_mem_option h
    rw [Expr.yield.sizeOf_spec]; omega
  case list => have := List.sizeOf_lt_of_mem h; rw [Expr.list.sizeOf_spec]; omega
  case tuple => have := List.sizeOf_lt_of_mem h; rw [Expr.tuple.sizeOf_spec]; omega
  case set => have := List.sizeOf_lt_of_mem h; rw [Expr.set.sizeOf_spec]; omega
  case call =>
    rcases h with rfl | h | ⟨k, hk, rfl⟩
    · rw [Expr.call.sizeOf_spec]; omega
    · have := List.sizeOf_lt_of_mem h; rw [Expr.call.sizeOf_spec]; omega
    · have := List.sizeOf_lt_of_mem hk
      obtain ⟨span, name, value⟩ := k
      rw [Keyword.mk.sizeOf_spec] at this
      rw [Expr.call.sizeOf_spec]; dsimp only; omega
  case dict =>
    obtain ⟨i, hi, he⟩ := List.mem_flatMap.1 h
    have := DictItem.sizeOf_lt_of_mem he
    have := List.sizeOf_lt_of_mem hi
    rw [Expr.dict.sizeOf_spec]; omega
  case listComp =>
    rcases h with rfl | h
    · rw [Expr.listComp.sizeOf_spec]; omega
    · have := sizeOf_lt_of_mem_clauses h; rw [Expr.listComp.sizeOf_spec]; omega
  case setComp =>
    rcases h with rfl | h
    · rw [Expr.setComp.sizeOf_spec]; omega
    · have := sizeOf_lt_of_mem_clauses h; rw [Expr.setComp.sizeOf_spec]; omega
  case generator =>
    rcases h with rfl | h
    · rw [Expr.generator.sizeOf_spec]; omega
    · have := sizeOf_lt_of_mem_clauses h; rw [Expr.generator.sizeOf_spec]; omega
  case dictComp =>
    rcases h with rfl | rfl | h
    · rw [Expr.dictComp.sizeOf_spec]; omega
    · rw [Expr.dictComp.sizeOf_spec]; omega
    · have := sizeOf_lt_of_mem_clauses h; rw [Expr.dictComp.sizeOf_spec]; omega
  case lambda =>
    rcases h with h | rfl
    · have := Parameters.sizeOf_lt_of_mem h; rw [Expr.lambda.sizeOf_spec]; omega
    · rw [Expr.lambda.sizeOf_spec]; omega
  case compare =>
    rcases h with rfl | ⟨l, hl, rfl⟩
    · rw [Expr.compare.sizeOf_spec]; omega
    · have := List.sizeOf_lt_of_mem hl
      obtain ⟨op, operand⟩ := l
      rw [Comparison.mk.sizeOf_spec] at this
      rw [Expr.compare.sizeOf_spec]; dsimp only; omega

end SdkUsage.Tree
