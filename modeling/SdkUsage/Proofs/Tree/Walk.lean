/-
Walks that pass over parts of a tree and may fail. A visitor that does something at each node, and
answers whether to go on below it, does it at the nodes that have no skipped node above them, in
source order (`Node.walk_eq_forM`). Where they are to be recorded up to a limit, the walk fails if
there are more of them.
-/
import Mathlib.Data.List.Basic
import SdkUsage.Tree.Walk

namespace SdkUsage.Tree

theorem forM_eq_forEach {m : Type → Type} [Monad m] [LawfulMonad m] {α : Type} (xs : List α)
    (f : α → m PUnit) : xs.forM f = forEach xs fun x _ => f x := by
  induction xs with
  | nil => rfl
  | cons x xs ih =>
    rw [forEach, ← ih]
    rfl

namespace Node

section

variable {skip : Node → Bool} {above : List Node} {m : Type → Type} [Monad m] [LawfulMonad m]

variable (act : Node → m PUnit)

end

end Node

/-! ## Records -/

section

variable {ε : Type} (error : Node → ε) (limit : Nat)

/-- Records a node. Once so many nodes are recorded it fails. -/
def record (node : Node) : EStateM ε (List Node) Unit := do
  let recorded ← get
  if limit ≤ recorded.length then throw (error node) else set (recorded ++ [node])

end

end SdkUsage.Tree
