/-
Data attached to nodes, by the number of the node. A table has a fixed size,
and a write outside of it is refused.
-/
import SdkUsage.Tree.Stmt
import SdkUsage.Ty

namespace SdkUsage

open SdkUsage.Tree

/-- A number outside a table, and the size of the table. -/
structure OutOfRange where
  index : Nat
  size : Nat
  deriving DecidableEq

/-- The text of an error. -/
def OutOfRange.message (error : OutOfRange) : String :=
  s!"node_idx {error.index} out of bounds (nodes=" ++ toString error.size ++ ")"

/-- A table of optional values by number. -/
structure IndexTable (α : Type) where
  cells : Array (Option α)

namespace IndexTable

variable {α : Type}

/-- A table of a size without values. -/
def ofSize (size : Nat) : IndexTable α := ⟨Array.replicate size none⟩

/-- How many numbers a table has. -/
def size (table : IndexTable α) : Nat := table.cells.size

/-- The value of a number, none outside the table. -/
def get? (table : IndexTable α) (index : Nat) : Option α := table.cells[index]?.join

/-- The value of a number. -/
def get (table : IndexTable α) (index : Nat) : Except OutOfRange (Option α) :=
  if index < table.size then .ok (table.get? index) else .error ⟨index, table.size⟩

/-- Changes the value of a number. Outside the table nothing is changed. -/
def put (table : IndexTable α) (index : Nat) (value : Option α) : IndexTable α :=
  ⟨table.cells.setIfInBounds index value⟩

/-- Changes the value of a number. -/
def set (table : IndexTable α) (index : Nat) (value : Option α) :
    Except OutOfRange (IndexTable α) :=
  if index < table.size then .ok (table.put index value) else .error ⟨index, table.size⟩

/-- Removes the value of a number. -/
def clear (table : IndexTable α) (index : Nat) : IndexTable α := table.put index none

@[simp] theorem size_ofSize (size : Nat) : (ofSize size : IndexTable α).size = size := by
  simp [ofSize, IndexTable.size]

@[simp] theorem size_put (table : IndexTable α) (index : Nat) (value : Option α) :
    (table.put index value).size = table.size := by
  simp [put, size]

@[simp] theorem get?_ofSize (size index : Nat) : (ofSize size : IndexTable α).get? index = none := by
  simp only [ofSize, get?, Array.getElem?_replicate]
  split <;> rfl

theorem get?_put_self {table : IndexTable α} {index : Nat} (value : Option α)
    (h : index < table.size) : (table.put index value).get? index = value := by
  simp only [size] at h
  simp [put, get?, h]

theorem get?_put_other {table : IndexTable α} {index other : Nat} (value : Option α)
    (h : other ≠ index) : (table.put index value).get? other = table.get? other := by
  simp [put, get?, Array.getElem?_setIfInBounds_ne (Ne.symm h)]

end IndexTable

/-- The types of the expressions and statements of a module. -/
structure Annotations where
  exprs : IndexTable Ty
  stmts : IndexTable Ty

namespace Annotations

/-- Tables for so many expressions and statements, without types. -/
def ofSizes (expressions statements : Nat) : Annotations :=
  ⟨.ofSize expressions, .ofSize statements⟩

/-- The type of an expression. -/
def ofExpr? (types : Annotations) (expr : Expr) : Option Ty := types.exprs.get? expr.index

/-- The type of a node. -/
def ofNode? (types : Annotations) : Node → Option Ty
  | .expr expr => types.ofExpr? expr
  | .stmt stmt => types.stmts.get? stmt.index

/-- Sets or removes the type of an expression. -/
def annotateExpr (types : Annotations) (index : Nat) (type : Option Ty) :
    Except OutOfRange Annotations := do
  return { types with exprs := ← types.exprs.set index type }

/-- Sets the type of a statement. -/
def annotateStmt (types : Annotations) (index : Nat) (type : Ty) : Except OutOfRange Annotations := do
  return { types with stmts := ← types.stmts.set index (some type) }

end Annotations

end SdkUsage
