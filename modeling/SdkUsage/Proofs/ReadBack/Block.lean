/-
Blocks are read back. Plain statements are printed line by line, with one space before a
line for every block around it. Parsing the text gives the same statements, however deep
their blocks are nested, and whether or not a branch that is all of an else clause is
printed with `elif`.
-/
import SdkUsage.Proofs.Grammar.Compound

namespace SdkUsage

namespace Grammar

/-- The statements of a text are read up to its end. -/
theorem Nesting.Readable.stmtsUntil {elif : Tree.Site → Bool} {ss : List Tree.Stmt}
    (h : Readable elif ss) : ∃ deep ≤ 1, ∀ bound,
      (Line.tokens 0 (Tree.blockLines elif 0 ss)).length + 2 ≤ bound →
      Parses ((rules bound).stmtsUntil endsText) deep (Line.tokens 0 (Tree.blockLines elif 0 ss))
        (Line.tokens 0 []) (List.Forall₂ Tree.Stmt.Same ss) := by
  obtain ⟨deep, hdeep, reads⟩ := readsBlock h
  refine ⟨deep, hdeep, fun bound hb => ?_⟩
  have below : Line.Below 0 [] := fun _ hline => by cases hline
  have groups := reads endsText endsText_placeless endsText_of_written _ _ 0 [] bound bound rfl rfl
    below (by rw [List.append_nil]; omega) (by rw [List.append_nil]; omega)
  rw [List.append_nil] at groups
  rw [stmtsUntil_eq]
  exact groups.bind_zero fun _ same => .pure same

end Grammar

namespace Tree

/-- Statements printed line by line. A branch that is all of an else clause is printed with
`elif` if its site is chosen for that. -/
def printedLines (elif : Site → Bool) (file : String) (ss : List Stmt) : Source :=
  ⟨file, String.join ((blockLines elif 0 ss).map Line.text)⟩

/-- **Printed blocks are read back.** -/
theorem printedLines_parses (elif : Site → Bool) (file : String) {ss : List Stmt}
    (h : ∀ s ∈ ss, s.Plain) :
    ∃ m, parse (printedLines elif file ss) = .ok m ∧ List.Forall₂ Stmt.Same ss m.body := by
  have lays : ∀ s ∈ ss, s.Lays elif := fun s hs => (h s hs).lays
  have laid := lays_block lays (Nat.le_refl 0) .nil
  rw [List.append_nil] at laid
  obtain ⟨us, lexes, alike⟩ := laid.lexes file
  have readable : Grammar.Nesting.Readable elif ss := fun s hs => ⟨h s hs, (h s hs).reads⟩
  obtain ⟨deep, hdeep, reads⟩ := readable.stmtsUntil
  exact (Grammar.parse_of_parses lexes alike reads).1 (Nat.le_trans hdeep (by decide))

/-- Blocks of every kind, of which several close before a line, and branches in else clauses. -/
def nestedBlocks : List Stmt :=
  let name (id : String) : Expr := .name default id
  let pass : Stmt := .pass default
  let shape : Stmt := .classDef ⟨default, ⟨"Shape", default⟩, [], [], [], [pass]⟩
  let draw : Stmt := .functionDef
    ⟨default, ⟨"draw", default⟩, ⟨[], none, [], none⟩, none, [], [shape], false⟩
  let retry : Stmt := .whileLoop default (name "a") [.expr default (name "b")] [pass]
  let attempt : Stmt := .tryBlock default [pass]
    [⟨default, none, none, [retry]⟩, ⟨default, none, none, [pass]⟩]
    [.withBlock default [⟨name "a", none⟩, ⟨name "b", none⟩] [pass] false] [draw]
  let last : Stmt := .branch default (name "z") [pass] []
  let next : Stmt := .branch ⟨default, 1⟩ (name "y") [pass] [last]
  [.branch default (name "x") [.forLoop default (name "y") (name "z") [attempt] [] false] [next], pass]

theorem nestedBlocks_parses : (∀ s ∈ nestedBlocks, s.Plain) ∧
    (printedLines (·.index = 1) "a.py" nestedBlocks).text =
      "if x:\n for y in z:\n  try:\n   pass\n  except:\n   while a:\n    b\n   else:\n    pass\n"
        ++ "  except:\n   pass\n  else:\n   with a, b:\n    pass\n  finally:\n   def draw():\n"
        ++ "    class Shape:\n     pass\nelif y:\n pass\nelse:\n if z:\n  pass\npass\n" ∧
    ∃ m, parse (printedLines (·.index = 1) "a.py" nestedBlocks) = .ok m ∧
      List.Forall₂ Stmt.Same nestedBlocks m.body := by
  have named (id : String) (h : IsName id) : (Expr.name default id).Named := ⟨_, id, rfl, h⟩
  have a := named "a" (by decide)
  have b := named "b" (by decide)
  have y := named "y" (by decide)
  have z := named "z" (by decide)
  have pass : ∀ s ∈ [Stmt.pass default], s.Plain := List.forall_mem_singleton.2 .pass
  have nothing : ∀ s ∈ ([] : List Stmt), s.Plain := fun _ hmem => absurd hmem List.not_mem_nil
  have draw : Stmt.Plain (.functionDef ⟨default, ⟨"draw", default⟩, ⟨[], none, [], none⟩, none, [],
      [.classDef ⟨default, ⟨"Shape", default⟩, [], [], [], [.pass default]⟩], false⟩) :=
    .functionDef (by decide) (by simp)
      (List.forall_mem_singleton.2 (.classDef (by decide) (by simp) pass))
  have retry : Stmt.Plain (.whileLoop default (.name default "a")
      [.expr default (.name default "b")] [.pass default]) :=
    .whileLoop a (by simp) (List.forall_mem_singleton.2 (.expr b)) pass
  have withBoth : Stmt.Plain (.withBlock default
      ([.name default "a", .name default "b"].map (⟨·, none⟩)) [.pass default] false) :=
    .withBlock (by simp) (by simpa using ⟨a, b⟩) (by simp) pass
  have plain : ∀ s ∈ nestedBlocks, s.Plain := by
    refine List.forall_mem_cons.2 ⟨?_, pass⟩
    refine .branch (named "x" (by decide)) (by simp) (List.forall_mem_singleton.2 ?_)
      (List.forall_mem_singleton.2 (.branch y (by simp) pass
        (List.forall_mem_singleton.2 (.branch z (by simp) pass nothing))))
    refine .forLoop y z (by simp) (List.forall_mem_singleton.2 ?_) nothing
    exact .tryBlock (by simp) pass (by simp) (by simpa using ⟨retry, .pass⟩)
      (List.forall_mem_singleton.2 withBoth) (List.forall_mem_singleton.2 draw) (by simp)
  exact ⟨plain, by decide +kernel, printedLines_parses (·.index = 1) "a.py" plain⟩

end Tree

end SdkUsage
