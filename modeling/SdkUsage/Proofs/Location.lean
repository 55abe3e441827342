/-
Where errors and nodes are. Both come from following the grammar through a source
(`Grammar.Takes`): what it refuses is refused at a place of the text, and the nodes it
builds lie in the text as they lie in one another.
-/
import SdkUsage.Proofs.Grammar.Statement

namespace SdkUsage

open SdkUsage.Tree

/-- The lines of a position are counted by the line feeds before it. -/
theorem SyntaxError.Located.bounds {source : Source} {error : SyntaxError}
    (h : error.Located source.readChars) :
    1 ≤ error.line ∧ error.line ≤ source.lineTable.length ∧ 1 ≤ error.col := by
  obtain ⟨cursor, ⟨before, htext, follows⟩, hline, hcol⟩ := h
  obtain ⟨more, hmore, -⟩ := source.chars_eq
  have counted : before.count '\n' ≤ source.chars.count '\n' := by
    rw [hmore, htext, List.append_assoc, List.count_append]
    exact Nat.le_add_right _ _
  rw [hline, hcol, follows.line, source.length_lineTable]
  exact ⟨by omega, by omega, follows.col_pos⟩

/-- The line of such an error is there, so its text fails only for its mark. -/
theorem SyntaxError.Located.message?_eq {source : Source} {error : SyntaxError}
    (h : error.Located source.readChars) :
    error.message? source = if Source.maxMargin < error.col - 1 then none
      else some (source.excerpt error.line error.col "error" error.cause.message) := by
  have shown : ¬ source.lineTable.length < error.line := Nat.not_lt.2 h.bounds.2.1
  rw [message?, Source.message?, if_neg shown]

/-- **The spans of a source that is parsed nest.** Every node lies in the text, between two
characters of it, and its parts lie in it. In every list of statements each one stands before
the next. -/
theorem Source.spans_nest (source : Source) {module : Module} (h : parse source = .ok module) :
    (∀ n ∈ module.nodes, n.span.start ≤ n.span.stop ∧ n.span.stop ≤ source.length ∧
      Text.Boundary source.chars n.span.start ∧ Text.Boundary source.chars n.span.stop) ∧
    (∀ n ∈ module.nodes, ∀ child ∈ n.children,
      n.span.start ≤ child.span.start ∧ child.span.stop ≤ n.span.stop) ∧
    module.body.IsChain Stmt.Before ∧
    ∀ n ∈ module.nodes, ∀ block ∈ n.blocks, block.IsChain Stmt.Before := by
  obtain ⟨start, after, -, -, read, -, -⟩ := read_of_parse h
  have fits : ∀ n ∈ module.nodes, n.Fits source := fun n hn => (read.below n hn).2
  have ordered := read.ordered
  rw [stmtsOf_stmtNodes] at ordered
  refine ⟨fun n hn => ?_, fun n hn => (fits n hn).children, ordered.isChain,
    fun n hn block hb => ((fits n hn).blocks block hb).isChain⟩
  have span := (fits n hn).span
  exact ⟨span.ordered, span.boundary.le, span.start, span.boundary⟩

/-- Statements in blocks, with a character of two bytes. -/
def Source.accentedBlocks : Source where
  file := "main.py"
  text := "if é:\n f(é); g\nelse: h\ni\n"

/-- The branch ends where the last statement starts, and all lies in the `27` bytes. -/
theorem Source.accentedBlocks_nest :
    ∃ module, parse accentedBlocks = .ok module ∧
      module.body.map (fun t => (t.span.start, t.span.stop)) = [(0, 25), (25, 26)] ∧
      (∀ n ∈ module.nodes, n.span.stop ≤ 27) ∧ module.body.IsChain Stmt.Before := by
  have spans : (parse accentedBlocks).map
      (fun module => module.body.map fun t => (t.span.start, t.span.stop))
        = .ok [(0, 25), (25, 26)] := by
    decide +kernel
  cases h : parse accentedBlocks with
  | error error =>
    rw [h] at spans
    cases spans
  | ok module =>
    simp only [h, Except.map, Except.ok.injEq] at spans
    obtain ⟨inside, -, ordered, -⟩ := spans_nest accentedBlocks h
    have length : accentedBlocks.length = 27 := by decide +kernel
    exact ⟨module, rfl, spans, fun n hn => length ▸ (inside n hn).2.1, ordered⟩

end SdkUsage
