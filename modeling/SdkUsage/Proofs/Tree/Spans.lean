/-
The pieces of text nodes were read from. A node `Fits` a source if its span is
one of the source, the spans of its parts lie inside it, and the statements of
its blocks stand one behind another. Where all nodes below a node do, each of
them lies inside it.
-/
import SdkUsage.Proofs.Token.Position
import SdkUsage.Proofs.Tree.Region

namespace SdkUsage

theorem Cursor.Located.boundary {source : Source} {cursor : Cursor}
    (h : cursor.Located source.readChars) : Text.Boundary source.chars cursor.offset := by
  obtain ⟨before, htext, follows⟩ := h
  exact Source.Holds.boundary ⟨before, htext, follows.offset⟩

/-- A span of a source. -/
structure Span.Sound (source : Source) (span : Span) : Prop where
  located : span.Located source.readChars
  ordered : span.start ≤ span.stop
  boundary : Text.Boundary source.chars span.stop

theorem Span.Sound.start {source : Source} {span : Span} (h : span.Sound source) :
    Text.Boundary source.chars span.start := by
  obtain ⟨cursor, located, -, -, start⟩ := h.located
  rw [start]
  exact located.boundary

namespace Tree

/-- The piece of text a node was read from. -/
def Node.span : Node → Span
  | .stmt t => t.span
  | .expr e => e.span

/-- The lists of statements in a statement. -/
def Stmt.blocks : Stmt → List (List Stmt)
  | functionDef definition => [definition.body]
  | classDef definition => [definition.body]
  | branch _ _ body orelse | whileLoop _ _ body orelse | forLoop _ _ _ body orelse _ =>
    [body, orelse]
  | withBlock _ _ body _ => [body]
  | tryBlock _ body handlers orelse finalbody =>
    body :: handlers.map (·.body) ++ [orelse, finalbody]
  | _ => []

/-- The lists of statements in a node. -/
def Node.blocks : Node → List (List Stmt)
  | .stmt t => t.blocks
  | .expr _ => []

/-- A statement stands before another. -/
def Stmt.Before (t u : Stmt) : Prop := t.span.stop ≤ u.span.start

/-- A node that lies in a source as its parts and blocks do in it. -/
structure Node.Fits (source : Source) (node : Node) : Prop where
  span : node.span.Sound source
  children : ∀ child ∈ node.children,
    node.span.start ≤ child.span.start ∧ child.span.stop ≤ node.span.stop
  blocks : ∀ block ∈ node.blocks, block.Pairwise Stmt.Before

/-- All that is below a node lies inside it. -/
theorem Node.Fits.inside {source : Source} {node n : Node}
    (h : ∀ n ∈ node.preorder, n.Fits source) (hn : n ∈ node.preorder) :
    node.span.start ≤ n.span.start ∧ n.span.stop ≤ node.span.stop := by
  rcases Node.mem_preorder_cases hn with rfl | ⟨child, hc, hn⟩
  · exact ⟨Nat.le_refl _, Nat.le_refl _⟩
  · obtain ⟨start, stop⟩ := (h node node.mem_preorder_self).children child hc
    have below := inside (fun m hm => h m (Node.mem_preorder_of_mem_children hc hm)) hn
    exact ⟨Nat.le_trans start below.1, Nat.le_trans below.2 stop⟩
termination_by node.rank
decreasing_by exact Node.rank_lt_of_mem_children hc

/-! ## Statements among nodes -/

/-- The statements among nodes. -/
def stmtsOf (nodes : List Node) : List Stmt :=
  nodes.filterMap fun
    | .stmt t => some t
    | .expr _ => none

@[simp] theorem stmtsOf_append (as bs : List Node) :
    stmtsOf (as ++ bs) = stmtsOf as ++ stmtsOf bs := by
  simp [stmtsOf]

@[simp] theorem stmtsOf_exprNodes (es : List Expr) : stmtsOf (exprNodes es) = [] := by
  simp [stmtsOf, exprNodes, List.filterMap_map]

@[simp] theorem stmtsOf_stmtNodes (ts : List Stmt) : stmtsOf (stmtNodes ts) = ts := by
  simp [stmtsOf, stmtNodes, List.filterMap_map]

@[simp] theorem stmtsOf_expr (e : Expr) (nodes : List Node) :
    stmtsOf (.expr e :: nodes) = stmtsOf nodes := rfl

theorem mem_of_mem_stmtsOf {nodes : List Node} {t : Stmt} (h : t ∈ stmtsOf nodes) :
    .stmt t ∈ nodes := by
  obtain ⟨n, hn, ht⟩ := List.mem_filterMap.1 h
  cases n with
  | stmt u =>
    cases ht
    exact hn
  | expr e => cases ht

/-- The statements of a block are parts of the statement, in their order. -/
theorem Stmt.sublist_of_mem_blocks {t : Stmt} {block : List Stmt} (h : block ∈ t.blocks) :
    block.Sublist (stmtsOf t.children) := by
  cases t with
  | functionDef d =>
    cases List.mem_singleton.1 h
    simp [children, FunctionDef.children]
  | classDef d =>
    cases List.mem_singleton.1 h
    simp [children, ClassDef.children]
  | withBlock =>
    cases List.mem_singleton.1 h
    simp [children]
  | branch _ _ body orelse | whileLoop _ _ body orelse | forLoop _ _ _ body orelse _ =>
    rcases List.mem_pair.1 h with rfl | rfl <;> simp [children]
  | tryBlock _ body handlers orelse finalbody =>
    simp only [blocks, List.cons_append, List.mem_cons, List.mem_append, List.mem_map,
      List.not_mem_nil, or_false] at h
    simp only [children, stmtsOf_append, stmtsOf_stmtNodes, List.append_assoc]
    rcases h with rfl | ⟨handler, hh, rfl⟩ | rfl | rfl
    · exact List.sublist_append_left _ _
    · obtain ⟨front, back, rfl⟩ := List.append_of_mem hh
      refine List.sublist_append_of_sublist_right (List.sublist_append_of_sublist_left ?_)
      simp [Handler.children, List.sublist_append_of_sublist_right]
    · refine List.sublist_append_of_sublist_right (List.sublist_append_of_sublist_right ?_)
      exact List.sublist_append_left _ _
    · simp only [← List.append_assoc]
      exact List.sublist_append_right _ _
  | _ => cases h

end Tree

end SdkUsage
