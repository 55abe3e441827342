/-
Reading a source comes to an end. The lexer gives at most two tokens for each character before
the end token or an error. The grammar gives a module or an error that is about the text:
no bound on repetition or recursion is ever used up, and with a larger one the result is the
same.

An error is more than its place and cause: it is returned with its text, and that cannot be
made when the mark would stand further right than `maxMargin`. So a source with a long line can
have an error that is never returned.

The reasons are that every round of a loop that goes on has passed a token (`Round.passes`),
that a rule for expressions comes back to expressions only after a token, and that a statement
does so to statements; to an expression it may come at once, which adds a single step.
-/
import SdkUsage.Proofs.Location
import SdkUsage.Proofs.SameTokens

namespace SdkUsage

open SdkUsage.Tree

/-! ## Errors -/

/-- The text of an error can be made exactly when its mark is within the margin. -/
def SyntaxError.ShownWithinMargin (error : SyntaxError) (source : Source) : Prop :=
  (∃ text, error.message? source = some text) ↔ error.col - 1 ≤ Source.maxMargin

theorem SyntaxError.Located.shown {source : Source} {error : SyntaxError}
    (h : error.Located source.readChars) : error.ShownWithinMargin source := by
  rw [ShownWithinMargin, h.message?_eq]
  split
  · next far => exact ⟨nofun, fun near => absurd far (Nat.not_lt.2 near)⟩
  · next near => exact ⟨fun _ => Nat.not_lt.1 near, fun _ => ⟨_, rfl⟩⟩

/-! ## The lexer -/

/-- A lexer gives at most `n` tokens and then the end token, or an error that is shown within
the margin. -/
def Lexer.HaltsWithin (n : Nat) (source : Source) (lexer : Lexer) : Prop :=
  ∃ ts last, ts.length ≤ n ∧ (∀ t ∈ ts, t.kind ≠ .eof) ∧ lexer.Gives ts last ∧
    ((∃ t after, last.next = (.ok t, after) ∧ t.kind = .eof) ∨
      ∃ error after, last.next = (.error error, after) ∧ error.ShownWithinMargin source)

theorem Lexer.Sound.haltsWithin_left {source : Source} {lexer : Lexer} (hl : lexer.Sound source) :
    lexer.HaltsWithin lexer.left source := by
  -- Every token but the end token leaves less to come.
  induction hn : lexer.left using Nat.strongRecOn generalizing lexer with
  | ind n ih =>
    cases h : lexer.next with
    | mk result after =>
      cases result with
      | error error =>
        have shown := (hl.located.next_error h).shown
        exact ⟨[], lexer, by simp, by simp, .nil _, .inr ⟨error, after, h, shown⟩⟩
      | ok t =>
        by_cases hk : t.kind = .eof
        · exact ⟨[], lexer, by simp, by simp, .nil _, .inl ⟨t, after, h, hk⟩⟩
        · have fewer := (next_fair hl.quiet h).left hk
          obtain ⟨ts, last, length, kinds, gives, halts⟩ :=
            ih after.left (hn ▸ fewer) (hl.next h).1 rfl
          refine ⟨t :: ts, last, ?_, List.forall_mem_cons.2 ⟨hk, kinds⟩, .cons h gives, halts⟩
          rw [List.length_cons]
          omega

theorem Lexer.start_left_le (source : Source) :
    (Lexer.start source).left ≤ 2 * source.chars.length := by
  have shorter := (List.takeWhile_sublist (l := source.chars) (· ≠ '\x00')).length_le
  simp only [start, left, Cursor.start, List.countP_nil, List.length_nil, Bool.false_eq_true,
    if_false]
  omega

namespace Grammar

/-! ## Loops -/

/-- The rounds of the loops of the grammar. -/
inductive Round (g : Nesting) : {α : Type} → Parse (Option α) → Prop
  | tupleItem : Round g (nextItem? "," (!startsExpression ·) (g.starOr g.test))
  | targetItem : Round g (nextItem? "," (!startsExpression ·) (g.starOr (g.expr .bitOr)))
  | condition : Round g g.condition?
  | clause : Round g g.clause?
  | parameter (close annotations) :
    Round g (nextItem? "," (isWord close) (g.paramItem annotations))
  | string (before) : Round g (Recursion.joinString? before)
  /-- An element of a tuple in parentheses, of a list or of a set. -/
  | element (close) : Round g (nextItem? "," (isWord close) (g.starOr g.namedTest))
  | dictItem : Round g (nextItem? "," (isWord "\x7d") g.dictItem)
  | argument : Round g (nextItem? "," (isWord ")") g.argument)
  | sliceItem : Round g (nextItem? "," (isWord "]") g.sliceItem)
  | trailer (start e) : Round g (g.trailer? start e)
  | operand (ops next start lhs) :
    next ∈ [g.factor, g.term, g.sum, g.shift, g.bitAnd, g.bitXor] →
    Round g (Recursion.operand? ops next start lhs)
  | comparison : Round g g.comparison?
  | conjunct (start lhs) : Round g (Recursion.boolOperand? "and" .and g.notTest start lhs)
  | disjunct (start lhs) : Round g (Recursion.boolOperand? "or" .or g.andTest start lhs)
  | dottedPart (name) : Round g (Recursion.dottedPart? name)
  | importedModule : Round g (nextItem? "," (fun _ => false) g.importedModule)
  | importLevel (level) : Round g (Recursion.importLevel? level)
  | importedMember (last) : Round g (nextItem? "," last Recursion.importedMember)
  | assignedSide : Round g g.assignedSide?
  | name : Round g (nextItem? "," (fun _ => false) ident)
  | smallStmt : Round g (nextItem? ";" Recursion.endsLine g.smallStmt)
  /-- A statement of a block or of a module. -/
  | group (ends) : Round g (g.group? ends)
  | withItem : Round g (nextItem? "," (fun _ => false) g.withItem)
  | handler : Round g g.handler?
  | decorator : Round g g.decorator?

theorem Round.reads {g : Nesting} {n : Nat} {α : Type} {round : Parse (Option α)}
    (h : Round g round) (hg : Nesting.Tracked False g g n) :
    ∃ gain, (∀ v, gain.passed (some v) = true) ∧ Reads False n round round gain := by
  have hr := hg.rules
  have hb := hr.back
  cases h with
  | tupleItem =>
    exact ⟨_, fun _ => rfl, nextItem_reads rfl (Recursion.starOr_reads hb (Recursion.test_reads hb))⟩
  | targetItem =>
    exact ⟨_, fun _ => rfl, nextItem_reads rfl (Recursion.starOr_reads hb (hb.expr .bitOr))⟩
  | condition => exact ⟨_, fun _ => rfl, Recursion.condition_reads hb⟩
  | clause => exact ⟨_, fun _ => rfl, Recursion.clause_reads hb⟩
  | parameter close annotations =>
    exact ⟨_, fun _ => rfl, nextItem_reads rfl (Recursion.paramItem_reads hb annotations)⟩
  | string before => exact ⟨_, fun _ => rfl, Recursion.joinString_reads before⟩
  | element close => exact ⟨_, fun _ => rfl, nextItem_reads rfl (Recursion.element_reads hb)⟩
  | dictItem => exact ⟨_, fun _ => rfl, nextItem_reads rfl (Recursion.dictItem_reads hb)⟩
  | argument => exact ⟨_, fun _ => rfl, nextItem_reads rfl (Recursion.argument_reads hb)⟩
  | sliceItem => exact ⟨_, fun _ => rfl, nextItem_reads rfl (Recursion.sliceItem_reads hb)⟩
  | trailer start e => exact ⟨_, fun _ => rfl, (Recursion.trailer_takes hb start e).silent⟩
  | operand ops next start lhs hnext =>
    suffices operand : ReadsExpr False n next next from
      ⟨_, fun _ => rfl, (Recursion.operand_takes operand start lhs).silent⟩
    simp only [List.mem_cons, List.not_mem_nil, or_false] at hnext
    rcases hnext with rfl | rfl | rfl | rfl | rfl | rfl
    · exact (Recursion.factor_reads hb).back
    · exact (Recursion.term_reads hb).back
    · exact (Recursion.sum_reads hb).back
    · exact (Recursion.shift_reads hb).back
    · exact (Recursion.bitAnd_reads hb).back
    · exact (Recursion.bitXor_reads hb).back
  | comparison => exact ⟨_, fun _ => rfl, (Recursion.comparison_link_reads hb).back⟩
  | conjunct start lhs =>
    exact ⟨_, fun _ => rfl,
      (Recursion.boolOperand_takes rfl (Recursion.notTest_reads hb).back start lhs).silent⟩
  | disjunct start lhs =>
    exact ⟨_, fun _ => rfl,
      (Recursion.boolOperand_takes rfl (Recursion.andTest_reads hb).back start lhs).silent⟩
  | dottedPart name => exact ⟨_, fun _ => rfl, @Recursion.dottedPart_reads False n name False.elim⟩
  | importedModule =>
    exact ⟨_, fun _ => rfl, nextItem_reads rfl (Recursion.importedModule_reads hb)⟩
  | importLevel level => exact ⟨_, fun _ => rfl, Recursion.importLevel_reads level⟩
  | importedMember last => exact ⟨_, fun _ => rfl, nextItem_reads rfl Recursion.importedMember_reads⟩
  | assignedSide => exact ⟨_, fun _ => rfl, Recursion.assignedSide_reads hb⟩
  | name => exact ⟨_, fun _ => rfl, nextItem_reads rfl ident_reads⟩
  | smallStmt => exact ⟨_, fun _ => rfl, nextItem_reads rfl (Recursion.smallStmt_reads hb)⟩
  | group ends => exact ⟨_, fun _ => rfl, Nesting.group_reads hg ends⟩
  | withItem => exact ⟨_, fun _ => rfl, (nextItem_reads rfl (Nesting.withItem_reads hg)).back⟩
  | handler => exact ⟨_, fun _ => rfl, (Nesting.handler_reads hg).back⟩
  | decorator => exact ⟨_, fun _ => rfl, (Nesting.decorator_reads hg).back⟩

/-- **A round that goes on has passed a token.** -/
theorem Round.passes {b : Nat} {α : Type} {round : Parse (Option α)} {p q : Parser} {v : α}
    (h : Round (rules b) round) (hq : p.lexer.Quiet) (hb : p.left + 1 < b)
    (hr : round p = .ok (some v) q) : ∃ ts, ts ≠ [] ∧ p.Passes ts q := by
  have within : Within (p.left + 1) p := ⟨hq, Nat.lt_succ_self _⟩
  obtain ⟨gain, moved, reads⟩ := h.reads (statements_tracked hb hb)
  obtain ⟨-, proceeds⟩ := reads.agrees (Nat.le_refl _) within
  rw [hr] at proceeds
  obtain ⟨⟨ts, passed⟩, after⟩ := proceeds
  rw [if_pos (moved v)] at after
  exact ⟨ts, passed.ne_nil after.left, passed⟩

/-! ## Modules -/

/-- Everything up to the end of the text, with a bound on repetition. -/
def moduleWithin (bound : Nat) : Parse Module := do
  let body ← (rules bound).stmtsUntil endsText
  let parser ← get
  return ⟨body, parser.expressions, parser.statements⟩

theorem moduleRule_eq (p : Parser) : moduleRule p = moduleWithin p.budget p := rfl

/-- **The bound on repetition is not used up, and a larger one changes nothing.** -/
theorem module_agrees {p : Parser} (hq : p.lexer.Quiet) {b b' : Nat} (hb : p.left + 1 < b)
    (hb' : p.left + 1 < b') :
    moduleWithin b p = moduleWithin b' p ∧ Proceeds p (fun _ _ => True) (moduleWithin b p) := by
  have within : Within (p.left + 1) p := ⟨hq, Nat.lt_succ_self _⟩
  have tracked : Nesting.Tracked False (rules b) (rules b') (p.left + 1) :=
    statements_tracked hb hb'
  have body := Nesting.stmtsUntil_reads tracked endsText
  obtain ⟨same, proceeds⟩ := body.agrees (Nat.le_refl _) within
  simp only [moduleWithin, Bind.bind, EStateM.bind, ← same]
  cases hr : (rules b).stmtsUntil endsText p with
  | ok body q =>
    rw [hr] at proceeds
    exact ⟨trivial, proceeds.1, trivial⟩
  | error error q =>
    rw [hr] at proceeds
    exact ⟨trivial, proceeds⟩

theorem Parser.start_cause {source : Source} {error : SyntaxError}
    (h : Parser.start source = .error error) : error.cause ≠ .stalled := by
  unfold start at h
  split at h
  · cases h
  · next hn =>
    cases h
    exact Lexer.next_cause hn

end Grammar

open Grammar

theorem parse_cause {source : Source} {error : SyntaxError} (h : parse source = .error error) :
    error.cause ≠ .stalled := by
  unfold parse at h
  split at h
  · next hs =>
    cases h
    exact Parser.start_cause hs
  · next p hs =>
    have quiet := Parser.start_lexer_quiet hs
    have proceeds := (module_agrees quiet p.left_lt_budget p.left_lt_budget).2
    rw [← moduleRule_eq] at proceeds
    split at h
    · cases h
    · next hm =>
      cases h
      rw [hm] at proceeds
      exact proceeds

/-- **The front end terminates on every source.** The lexer comes to the end token or to an
error after finitely many tokens. The grammar gives a module, or an error that is not that a
bound is used up, and the bound does not matter. In both, the error has a text to be returned
with exactly when its mark is within the margin. Every round of a loop that goes on passes at
least one token. Where the rules to come back to are settled for `n` tokens, those that come
back are settled for `n + 1`: between two steps of recursion a token is passed. -/
theorem Source.front_end_terminates (source : Source) :
    (Lexer.start source).HaltsWithin (2 * source.chars.length) source ∧
    ((∃ m, parse source = .ok m) ∨
      ∃ error, parse source = .error error ∧ error.cause ≠ .stalled ∧
        error.ShownWithinMargin source) ∧
    (∀ p, Parser.start source = .ok p → ∀ b, p.budget ≤ b → moduleWithin b p = moduleRule p) ∧
    (∀ (b : Nat) (α : Type) (round : Parse (Option α)) (p q : Parser) (v : α),
      Round (rules b) round → p.lexer.Quiet → p.left + 1 < b → round p = .ok (some v) q →
      ∃ ts, ts ≠ [] ∧ p.Passes ts q) ∧
    (∀ (g g' : Recursion) (n : Nat) (level : Grammar.Level), g.Settled g' n →
      Moves (n + 1) (g.level level) (g'.level level)) ∧
    (∀ (g g' : Nesting) (n : Nat), g.Settled g' n →
      Moves (n + 1) g.statement g'.statement ∧
      ∀ t : Token, t.word = "elif" →
        Agrees (WithinAt (n + 1) t) (g.entry .elif) (g'.entry .elif) fun _ => Within n) := by
  refine ⟨?_, ?_, ?_, ?_, ?_, ?_⟩
  · obtain ⟨ts, last, length, halts⟩ := (Lexer.Sound.start source).haltsWithin_left
    exact ⟨ts, last, Nat.le_trans length (Lexer.start_left_le source), halts⟩
  · cases h : parse source with
    | ok m => exact .inl ⟨m, rfl⟩
    | error error => exact .inr ⟨error, rfl, parse_cause h, (located_of_parse h).shown⟩
  · intro p hp b hb
    rw [moduleRule_eq]
    have enough := p.left_lt_budget
    exact (module_agrees (Parser.start_lexer_quiet hp) (by omega) enough).1
  · intro b α round p q v hround quiet hb hr
    exact hround.passes quiet hb hr
  · intro g g' n level hg
    exact Recursion.level_moves hg level
  · intro g g' n hg
    exact ⟨Nesting.statement_moves hg, fun t ht => Nesting.elif_agrees hg ht⟩

/-- A text that starts with a comma and a name, which is no module. -/
def Source.strayComma : Source where
  file := "main.py"
  text := ", x\n"

/-- The bounds `10` and `20` are large enough for the eight tokens that are at most to come. -/
theorem Source.strayComma_terminates :
    (Lexer.start strayComma).HaltsWithin (2 * strayComma.chars.length) strayComma ∧
    (∃ p q name, Parser.start strayComma = .ok p ∧ p.budget ≤ 20 ∧
      moduleWithin 20 p = moduleRule p ∧
      nextItem? "," (fun _ => false) ident p = .ok (some name) q ∧ name.text = "x" ∧
      ∃ ts, ts ≠ [] ∧ p.Passes ts q) ∧
    Moves 9 (Recursion.level ⟨10, expression 10⟩ .conditional)
      (Recursion.level ⟨20, expression 20⟩ .conditional) ∧
    Moves 9 (rules 10).statement (rules 20).statement ∧
    Agrees (WithinAt 9 ⟨.ident, "elif", ⟨1, 1, 0, 4⟩⟩) ((rules 10).entry .elif)
      ((rules 20).entry .elif) fun _ => Within 8 := by
  obtain ⟨lexer, -, module, loops, levels, entries⟩ := front_end_terminates strayComma
  have statement := entries (rules 10) (rules 20) 8 (statements_settled (by decide) (by decide))
  refine ⟨lexer, ?_, levels _ _ 8 _ (expression_settled (by decide) (by decide)), statement.1,
    statement.2 _ rfl⟩
  have found : ((Parser.start strayComma).toOption.bind fun p =>
      ((nextItem? "," (fun _ => false) ident).run' p).join.map fun name =>
        (p.left, p.budget, name.text)) = some (8, 11, "x") := by
    decide +kernel
  obtain ⟨p, hp, found⟩ := Option.bind_eq_some_iff.1 found
  have start : Parser.start strayComma = .ok p := by
    cases hs : Parser.start strayComma with
    | error => rw [hs] at hp; cases hp
    | ok p' => rw [hs] at hp; cases hp; rfl
  obtain ⟨name, given, found⟩ := Option.map_eq_some_iff.1 found
  obtain ⟨left, budget, text⟩ : p.left = 8 ∧ p.budget = 11 ∧ name.text = "x" := by
    simpa using found
  rw [Option.join_eq_some_iff] at given
  delta EStateM.run' at given
  cases hr : nextItem? "," (fun _ => false) ident p with
  | error => rw [EStateM.run, hr] at given; cases given
  | ok value q =>
    rw [EStateM.run, hr] at given
    cases given
    refine ⟨p, q, name, start, by omega, module p start 20 (by omega), hr, text, ?_⟩
    exact loops 10 Ident _ p q name .name (Parser.start_lexer_quiet start) (by omega) hr

/-! ## An error that is not returned -/

namespace Source

/-- Tabs, a form feed, which starts the indentation again, and a character that starts no
token. -/
def tabs (n : Nat) : Source where
  file := "main.py"
  text := String.ofList (List.replicate n '\t' ++ ['\x0c', '?'])

theorem indentation_tabs (n width offset line col : Nat) :
    Cursor.indentation width false (List.replicate n '\t' ++ ['\x0c', '?']) offset line col
      = (some 0, ⟨['?'], offset + n + 1, line, col + 4 * n + 1⟩) := by
  -- The form feed forgets the width, which is therefore arbitrary before it.
  induction n generalizing width offset col with
  | zero => rfl
  | succ n ih =>
    have step := ih ((width / 8 + 1) * 8) (offset + 1) (col + 4)
    rw [Nat.add_assoc offset, Nat.add_assoc col, Nat.add_comm 1, Nat.add_comm 4] at step
    exact step

theorem readIndentation_tabs (n : Nat) :
    (Lexer.start (tabs n)).cursor.readIndentation = (some 0, ⟨['?'], n + 1, 1, 4 * n + 2⟩) := by
  have kept : (List.replicate n '\t' ++ ['\x0c', '?']).takeWhile (· ≠ '\x00')
      = List.replicate n '\t' ++ ['\x0c', '?'] := by
    simp
  rw [Lexer.start, Cursor.readIndentation, Cursor.start, chars, tabs, String.toList_ofList,
    kept, indentation_tabs, Nat.zero_add, Nat.add_comm 1]

/-- The first token is refused, four columns to the right for each tab. -/
theorem next_tabs (n : Nat) : ∃ after,
    (Lexer.start (tabs n)).next = (.error ⟨1, 4 * n + 2, .invalidCharacter⟩, after) := by
  obtain ⟨after, scanned⟩ : ∃ after, (Lexer.start (tabs n)).scan
      = (some (.error ⟨1, 4 * n + 2, .invalidCharacter⟩), after) := by
    have line : (Lexer.start (tabs n)).scan = (Lexer.start (tabs n)).scanAtLineStart := rfl
    rw [line, Lexer.scanAtLineStart, readIndentation_tabs]
    exact ⟨_, rfl⟩
  refine ⟨after, ?_⟩
  rw [Lexer.next, scanned]

theorem parse_tabs (n : Nat) : parse (tabs n) = .error ⟨1, 4 * n + 2, .invalidCharacter⟩ := by
  obtain ⟨after, next⟩ := next_tabs n
  have start : Parser.start (tabs n) = .error ⟨1, 4 * n + 2, .invalidCharacter⟩ := by
    rw [Parser.start, next]
  rw [parse, start]

/-- After `16384` tabs the mark is too far to the right: there is no text that the lexer or the
grammar could return the error with. -/
theorem tabs_unreported :
    ∃ error after, (Lexer.start (tabs 16384)).next = (.error error, after) ∧
      parse (tabs 16384) = .error error ∧ error.message? (tabs 16384) = none := by
  obtain ⟨after, next⟩ := next_tabs 16384
  have refused := parse_tabs 16384
  refine ⟨_, after, next, refused, ?_⟩
  rw [(located_of_parse refused).message?_eq, if_pos (by decide)]

end Source

end SdkUsage
