/-
Lines and columns of tokens and of errors. A position is `Located` in a text if
its offset, line and column are those of what was read before it; each reader
keeps that, a character or a line feed at a time, and so does every way to a token
or an error. Columns are exact as long as no tab or carriage return was read: a tab
takes several columns and a carriage return takes none.
-/
import Mathlib.Data.List.DropRight
import SdkUsage.Proofs.LineTable

namespace SdkUsage

variable {cursor : Cursor} {cs rest text : List Char} {offset line col : Nat} {after : Lexer}
  {c : Char}

/-! ## Positions -/

namespace Cursor

/-- A position right after a text that starts in the first line. -/
structure Follows (before : List Char) (cursor : Cursor) : Prop where
  offset : cursor.offset = Text.byteLength before
  line : cursor.line = 1 + before.count '\n'
  col_pos : 1 ≤ cursor.col
  col : '\t' ∉ before → '\r' ∉ before →
    cursor.col = 1 + (before.rtakeWhile (· ≠ '\n')).length

/-- A position in a text. -/
def Located (text : List Char) (cursor : Cursor) : Prop :=
  ∃ before, text = before ++ cursor.rest ∧ cursor.Follows before

variable {text : List Char}

theorem Located.start (source : Source) :
    (Lexer.start source).cursor.Located source.readChars :=
  ⟨[], rfl, rfl, rfl, Nat.le_refl 1, fun _ _ => rfl⟩

/-- A character that does not end a line takes one column, unless it is a tab or a carriage
return. -/
theorem Located.char {col' : Nat} (h : Located text ⟨c :: cs, offset, line, col⟩) (hc : c ≠ '\n')
    (hle : col ≤ col') (hcol : c ≠ '\t' → c ≠ '\r' → col' = col + 1) :
    Located text ⟨cs, offset + c.utf8Size, line, col'⟩ := by
  obtain ⟨before, htext, follows⟩ := h
  refine ⟨before ++ [c], by simp [htext], ?_, ?_, Nat.le_trans follows.col_pos hle, ?_⟩
  · simpa using follows.offset
  · simpa [List.count_cons, hc] using follows.line
  · intro htab hreturn
    simp only [List.mem_append, List.mem_singleton, not_or] at htab hreturn
    have before := follows.col htab.1 hreturn.1
    simp only at before
    rw [List.rtakeWhile_concat, if_pos (by simpa using hc), List.length_append,
      hcol (Ne.symm htab.2) (Ne.symm hreturn.2), before]
    rfl

theorem Located.plain (h : Located text ⟨c :: cs, offset, line, col⟩) (hc : c ≠ '\n') :
    Located text ⟨cs, offset + c.utf8Size, line, col + 1⟩ :=
  h.char hc (Nat.le_succ col) fun _ _ => rfl

/-- A line feed starts the next line. -/
theorem Located.lineFeed (h : Located text ⟨'\n' :: cs, offset, line, col⟩) :
    Located text ⟨cs, offset + 1, line + 1, 1⟩ := by
  obtain ⟨before, htext, follows⟩ := h
  refine ⟨before ++ ['\n'], by simp [htext], ?_, ?_, Nat.le_refl 1, fun _ _ => ?_⟩
  · rw [Text.byteLength_append, ← follows.offset]
    rfl
  · have line := follows.line
    simp only at line ⊢
    rw [line, List.count_append, List.count_singleton_self, Nat.add_assoc]
  · rw [List.rtakeWhile_concat, if_neg (by simp)]
    rfl

/-! ## Readers -/

theorem Located.advance (h : cursor.Located text) {word after : List Char}
    (hr : cursor.rest = word ++ after) (hw : '\n' ∉ word) :
    (cursor.advance word.length).Located text := by
  induction word generalizing cursor with
  | nil => exact h
  | cons c cs ih =>
    simp only [List.mem_cons, not_or] at hw
    obtain ⟨rest, offset, line, col⟩ := cursor
    cases hr
    exact ih (h.plain (Ne.symm hw.1)) rfl hw.2

theorem Located.nextLine (h : cursor.Located text) (hr : cursor.rest = '\n' :: cs) :
    cursor.nextLine.Located text := by
  obtain ⟨rest, offset, line, col⟩ := cursor
  cases hr
  exact h.lineFeed

theorem Located.indentation {width : Nat} {comment : Bool}
    (h : Located text ⟨rest, offset, line, col⟩) :
    (indentation width comment rest offset line col).2.Located text := by
  fun_induction Cursor.indentation width comment rest offset line col with
  | case1 => exact h
  | case2 width comment offset line col cs ih => exact ih h.lineFeed
  | case3 width offset line col c cs hc ih => exact ih (h.plain hc)
  | case4 width comment offset line col cs _ _ ih => exact ih (h.plain (by decide))
  | case5 width comment offset line col cs _ _ _ ih =>
    exact ih (h.char (by decide) (Nat.le_add_right ..) fun ht => absurd rfl ht)
  | case6 width comment offset line col cs _ _ _ _ ih => exact ih (h.plain (by decide))
  | case7 width comment offset line col cs _ _ _ _ _ ih => exact ih (h.plain (by decide))
  | case8 width comment offset line col cs _ _ _ _ _ _ ih =>
    exact ih (h.char (by decide) (Nat.le_refl _) fun _ hr => absurd rfl hr)
  | case9 => exact h

theorem Located.blanks {joined comment : Bool} (h : Located text ⟨rest, offset, line, col⟩) :
    (blanks joined comment rest offset line col).2.Located text := by
  fun_induction Cursor.blanks joined comment rest offset line col with
  | case1 => exact h
  | case2 comment offset line col cs _ ih => exact ih h.lineFeed
  | case3 => exact h
  | case4 offset line col c cs hc ih => exact ih (h.plain hc)
  | case5 comment offset line col c cs hc _ hblank ih =>
    rcases hblank with rfl | rfl
    · exact ih (h.plain hc)
    · exact ih (h.plain hc)
  | case6 comment offset line col cs _ _ _ ih =>
    exact ih (h.char (by decide) (Nat.le_add_right ..) fun ht => absurd rfl ht)
  | case7 comment offset line col cs _ _ _ _ ih =>
    exact ih (h.char (by decide) (Nat.le_refl _) fun _ hr => absurd rfl hr)
  | case8 comment offset line col cs _ _ _ _ _ ih => exact ih (h.plain (by decide))
  | case9 comment offset line col _ cs _ _ _ _ _ ih => exact ih (h.plain (by decide)).lineFeed
  | case10 comment offset line col _ cs _ _ _ _ _ ih =>
    exact ih ((h.plain (by decide)).plain (by decide)).lineFeed
  | case11 => exact h
  | case12 => exact h

theorem Located.stringBody {quote : Char} {triple : Bool}
    (h : Located text ⟨rest, offset, line, col⟩) :
    (stringBody quote triple rest offset line col).2.Located text := by
  fun_induction Cursor.stringBody quote triple rest offset line col with
  | case1 => exact h
  | case2 offset line col => exact h.plain (by decide)
  | case3 offset line col cs ih => exact ih (h.plain (by decide)).lineFeed
  | case4 offset line col d cs hd ih => exact ih ((h.plain (by decide)).plain hd)
  | case5 offset line col cs _ _ ih => exact ih h.lineFeed
  | case6 => exact h
  | case7 offset line col cs _ _ hline => exact h.plain hline
  | case8 offset line col cs _ hclose _ hline =>
    obtain ⟨after, rfl⟩ := List.isPrefixOf_iff_prefix.1 hclose
    have closed := ((h.plain hline).plain hline).plain hline
    have size : offset + 3 * quote.utf8Size =
        offset + quote.utf8Size + quote.utf8Size + quote.utf8Size := by omega
    rw [size]
    exact closed
  | case9 offset line col cs _ _ _ hline ih => exact ih (h.plain hline)
  | case10 offset line col cs _ _ _ ih =>
    exact ih (h.char (by decide) (Nat.le_add_right ..) fun ht => absurd rfl ht)
  | case11 offset line col c cs _ hline _ _ ih => exact ih (h.plain hline)

/-- Reading a string passes its opening quotes first. -/
theorem Located.readString (h : cursor.Located text) (hq : startsQuote cursor.rest = true) :
    cursor.readString.2.Located text := by
  unfold Cursor.readString
  refine Located.stringBody ?_
  cases ht : isTriple cursor.rest with
  | false =>
    obtain ⟨rest, offset, line, col⟩ := cursor
    rcases rest with _ | ⟨c, cs⟩
    · cases hq
    · have hc : c ≠ '\n' := by rcases quote_of_startsQuote hq with rfl | rfl <;> decide
      exact h.plain hc
  | true =>
    obtain ⟨rest, offset, line, col⟩ := cursor
    rcases rest with _ | ⟨c, _ | ⟨d, _ | ⟨e, cs⟩⟩⟩
    · cases hq
    · cases ht
    · cases ht
    · simp only [isTriple, Bool.and_eq_true, decide_eq_true_eq] at ht
      obtain ⟨rfl, rfl⟩ := ht
      have hc : c ≠ '\n' := by rcases quote_of_startsQuote hq with rfl | rfl <;> decide
      exact ((h.plain hc).plain hc).plain hc

end Cursor

/-! ## Spans and errors -/

/-- A span that starts at a position of a text. -/
def Span.Located (text : List Char) (span : Span) : Prop :=
  ∃ cursor : Cursor, cursor.Located text ∧ span.line = cursor.line ∧ span.col = cursor.col ∧
    span.start = cursor.offset

/-- An error at a position of a text. -/
def SyntaxError.Located (text : List Char) (error : SyntaxError) : Prop :=
  ∃ cursor : Cursor, cursor.Located text ∧ error.line = cursor.line ∧ error.col = cursor.col

theorem Span.Located.atSpan {span : Span} (h : span.Located text) (cause : SyntaxError.Cause) :
    (SyntaxError.atSpan span cause).Located text := by
  obtain ⟨cursor, located, line, col, -⟩ := h
  exact ⟨cursor, located, line, col⟩

theorem Cursor.Located.spanFrom {first : Cursor} (h : first.Located text) (last : Cursor) :
    (last.spanFrom first).Located text :=
  ⟨first, h, rfl, rfl, rfl⟩

namespace Lexer

variable {text : List Char} {lexer : Lexer}

/-- The position and the tokens that wait are located. -/
structure Located (text : List Char) (lexer : Lexer) : Prop where
  cursor : lexer.cursor.Located text
  pending : ∀ t ∈ lexer.pending, t.span.Located text

theorem Located.layoutToken (h : lexer.Located text) (kind : TokenKind) :
    (lexer.layoutToken kind).span.Located text :=
  h.cursor.spanFrom lexer.cursor

theorem Located.noteToken (h : lexer.Located text) (t : Token) :
    (lexer.noteToken t).Located text := by
  refine ⟨?_, ?_⟩
  · rw [noteToken_cursor]
    exact h.cursor
  · rw [noteToken_pending]
    exact h.pending

theorem Located.indentTo (h : lexer.Located text) (width : Nat) :
    (lexer.indentTo width).2.Located text := by
  obtain ⟨_, kinds, -, after, -⟩ := lexer.indentTo_spec width
  rw [after]
  refine ⟨h.cursor, fun t ht => ?_⟩
  rcases List.mem_append.1 ht with ht | ht
  · exact h.pending t ht
  · obtain ⟨kind, -, rfl⟩ := List.mem_map.1 ht
    exact h.layoutToken kind

/-- The tokens at the end of a text are at the position. -/
theorem Located.finish (h : lexer.Located text) {t : Token}
    (hf : lexer.finish = (some (.ok t), after)) (hp : lexer.pending = []) :
    t.span.Located text ∧ (after.noteToken t).Located text := by
  obtain ⟨ts, rfl, closing⟩ := finish_ok hf hp
  have located : ∀ u ∈ t :: ts, u.span.Located text := by
    intro u hu
    rw [← closing] at hu
    obtain ⟨kind, -, rfl⟩ := mem_closingTokens hu
    exact h.layoutToken kind
  obtain ⟨first, rest⟩ := List.forall_mem_cons.1 located
  have last : Located text { lexer with blocks := [], lineOpen := false, pending := ts } :=
    ⟨h.cursor, rest⟩
  exact ⟨first, last.noteToken t⟩

/-- Scanning a token leads to a position of the text. -/
theorem Located.scanToken (h : lexer.cursor.Located text) (hr : lexer.cursor.rest = c :: cs)
    (hc : c ≠ '\n') : lexer.scanToken.2.cursor.Located text := by
  obtain ⟨word, after, rest, line, hs | ⟨hq, hs⟩⟩ := scanToken_cursor hr hc
  · rw [hs]
    exact h.advance rest line
  · have passed := (Cursor.advance_passes rest).rest
    rw [rest] at passed
    rw [List.append_cancel_left passed] at hq
    rw [hs]
    exact (h.advance rest line).readString hq

theorem Starts.located {width : Option Nat} (h : lexer.Starts width cursor)
    (hl : lexer.Located text) : (lexer.atIndented cursor).Located text := by
  have read : lexer.cursor.readIndentation.2.Located text := .indentation hl.cursor
  rw [h.indentation] at read
  exact ⟨read, hl.pending⟩

theorem cursor_located_of_blanks {joined : Bool}
    (h : lexer.cursor.skipBlanks (0 < lexer.depth) = (joined, cursor)) (hl : lexer.Located text) :
    cursor.Located text := by
  have read : (lexer.cursor.skipBlanks (0 < lexer.depth)).2.Located text := .blanks hl.cursor
  rwa [h] at read

theorem Reaches.located (h : lexer.Reaches cursor) (hl : lexer.Located text) :
    Located text { lexer with cursor } :=
  ⟨cursor_located_of_blanks h.blanks hl, hl.pending⟩

theorem Reaches.located_nextLine (h : lexer.Reaches cursor) (hline : cursor.rest = '\n' :: cs)
    (hl : lexer.Located text) : (lexer.atNextLine cursor).Located text :=
  ⟨(h.located hl).cursor.nextLine hline, hl.pending⟩

/-- **The next token is located,** and so is the lexer after it. -/
theorem Finds.located {t : Token} (h : lexer.Finds t after) (hl : lexer.Located text) :
    t.span.Located text ∧ after.Located text := by
  induction h with
  | @waiting l t ts hp =>
    have pending := hl.pending
    rw [hp, List.forall_mem_cons] at pending
    have rest : Located text { l with pending := ts } := ⟨hl.cursor, pending.2⟩
    exact ⟨pending.1, rest.noteToken t⟩
  | @indented l width cursor l' t l'' hs hi _ ih =>
    have indented := (hs.located hl).indentTo width
    rw [hi] at indented
    exact ih indented
  | ended hs hf => exact (hs.located hl).finish hf hs.pending
  | finished hr _ hf => exact (hr.located hl).finish hf hr.pending
  | lineEnd hr hline _ =>
    exact ⟨(hr.located hl).cursor.spanFrom _, hr.located_nextLine hline hl⟩
  | emptyLine hr hline _ _ ih => exact ih (hr.located_nextLine hline hl)
  | @word l cursor kind text' last hr ht hpasses hscan =>
    have here := (hr.located hl).cursor
    obtain ⟨c, cs, hrest, hc⟩ := exists_cons_of_tokenAt? ht
    have last := Located.scanToken here hrest hc
    rw [hscan] at last
    exact ⟨here.spanFrom _, last, hl.pending⟩

theorem Errs.located {place : Cursor} {cause : SyntaxError.Cause} (h : lexer.Errs place cause)
    (hl : lexer.Located text) : place.Located text := by
  induction h with
  | @indented l width cursor l' place cause hs hi _ ih =>
    have indented := (hs.located hl).indentTo width
    rw [hi] at indented
    exact ih indented
  | unmatched hs => exact (hs.located hl).cursor
  | broken hb => exact cursor_located_of_blanks hb hl
  | emptyLine hr hline _ ih => exact ih (hr.located_nextLine hline hl)
  | word hr _ => exact (hr.located hl).cursor

/-- **The next error is located.** -/
theorem Located.next_error {error : SyntaxError} (h : lexer.Located text)
    (hn : lexer.next = (.error error, after)) : error.Located text := by
  obtain ⟨place, cause, errs, rfl⟩ := Lexer.next_error hn
  exact ((errs.located h).spanFrom place).atSpan cause

/-- All tokens that are given are located. -/
theorem Located.gives (h : lexer.Located text) {ts : List Token} (hg : lexer.Gives ts after) :
    (∀ t ∈ ts, t.span.Located text) ∧ after.Located text := by
  induction hg with
  | nil => exact ⟨by simp, h⟩
  | cons hn _ ih =>
    obtain ⟨first, next⟩ := (next_eq_ok_iff.1 hn).located h
    obtain ⟨rest, last⟩ := ih next
    exact ⟨List.forall_mem_cons.2 ⟨first, rest⟩, last⟩

end Lexer

/-! ## Tokens in their lines -/

theorem Text.takeBytes_prefix (n : Nat) (text : List Char) : takeBytes n text <+: text := by
  induction text generalizing n with
  | nil => exact List.prefix_refl _
  | cons c cs ih =>
    rw [takeBytes]
    split
    · exact List.nil_prefix
    · exact List.cons_prefix_cons.2 ⟨rfl, ih _⟩

/-- A text is whole lines and the beginning of one. -/
theorem Text.exists_lineStart (text : List Char) :
    ∃ front, text = front ++ text.rtakeWhile (· ≠ '\n') ∧ '\n' ∉ text.rtakeWhile (· ≠ '\n') ∧
      (front = [] ∨ front.getLast? = some '\n') := by
  refine ⟨text.rdropWhile (· ≠ '\n'), List.rdropWhile_append_rtakeWhile.symm, fun hm => ?_, ?_⟩
  · simpa using List.mem_rtakeWhile_imp hm
  · by_cases hf : text.rdropWhile (· ≠ '\n') = []
    · exact .inl hf
    · have last := List.rdropWhile_last_not (· ≠ '\n') text hf
      rw [List.getLast?_eq_some_getLast hf]
      simpa using Or.inr last

/-- A text is the rest of a line and what comes after that line. -/
theorem Text.exists_lineEnd (text : List Char) :
    ∃ tail, text = text.takeWhile (· ≠ '\n') ++ tail ∧ '\n' ∉ text.takeWhile (· ≠ '\n') ∧
      ∀ c ∈ tail.head?, c = '\n' := by
  refine ⟨text.dropWhile (· ≠ '\n'), List.takeWhile_append_dropWhile.symm, fun hm => ?_, ?_⟩
  · simpa using List.mem_takeWhile_imp hm
  · intro c hc
    have stopped := List.head?_dropWhile_not (fun c : Char => decide (c ≠ '\n')) text
    rw [hc] at stopped
    simpa using stopped

theorem takeWhile_prefix_of_prefix {p : Char → Bool} {front : List Char} (h : front <+: text) :
    front.takeWhile p <+: text.takeWhile p := by
  obtain ⟨after, rfl⟩ := h
  rw [List.takeWhile_append]
  split
  · exact (List.takeWhile_prefix p).trans (List.prefix_append _ _)
  · exact List.prefix_refl _

namespace Source

variable {source : Source}

/-- What was read before a position is the text up to its offset. -/
theorem before_eq (h : cursor.Located source.readChars) :
    ∃ before after, source.chars = before ++ after ∧ cursor.Follows before ∧
      Text.takeBytes cursor.offset source.chars = before ∧
      Text.dropBytes cursor.offset source.chars = after := by
  obtain ⟨before, htext, follows⟩ := h
  obtain ⟨more, hmore, -⟩ := source.chars_eq
  have whole : source.chars = before ++ (cursor.rest ++ more) := by
    rw [hmore, htext, List.append_assoc]
  refine ⟨before, cursor.rest ++ more, whole, follows, ?_, ?_⟩
  · rw [follows.offset, whole, Text.takeBytes_append]
  · rw [follows.offset, whole, Text.dropBytes_append]

/-- The line around a place in a text without carriage returns: what comes before in the line, and
what comes after. -/
theorem line_around {before after : List Char} (h : source.chars = before ++ after)
    (hreturn : '\r' ∉ source.chars) :
    (source.line (before.count '\n')).toList =
      before.rtakeWhile (· ≠ '\n') ++ after.takeWhile (· ≠ '\n') := by
  obtain ⟨front, hbefore, own, starts⟩ := Text.exists_lineStart before
  obtain ⟨tail, hafter, rest, ends⟩ := Text.exists_lineEnd after
  have whole : source.chars = front ++ (before.rtakeWhile (· ≠ '\n') ++
      after.takeWhile (· ≠ '\n')) ++ tail := by
    rw [h]
    nth_rewrite 1 [hbefore, hafter]
    simp only [List.append_assoc]
  have count : before.count '\n' = front.count '\n' := by
    rw [hbefore, List.count_append, List.count_eq_zero_of_not_mem own, Nat.add_zero]
  have line : '\n' ∉ before.rtakeWhile (· ≠ '\n') ++ after.takeWhile (· ≠ '\n') :=
    fun hm => (List.mem_append.1 hm).elim own rest
  have returns : '\r' ∉ before.rtakeWhile (· ≠ '\n') ++ after.takeWhile (· ≠ '\n') := by
    intro hm
    refine hreturn ?_
    rw [whole]
    exact List.mem_append_left _ (List.mem_append_right _ hm)
  rw [count, line_eq whole starts line returns ends, String.toList_ofList]

/-- **Reported positions are exact.** In a text without tabs and carriage returns, the line of
every token counts the line feeds before it, and its column the characters since the last of them.
So a token with text is found in the line of that number from that column on. -/
theorem token_positions_exact (htab : '\t' ∉ source.chars) (hreturn : '\r' ∉ source.chars)
    {ts : List Token} {after : Lexer} (h : (Lexer.start source).Gives ts after) :
    ∀ t ∈ ts,
      t.span.line = 1 + (Text.takeBytes t.span.start source.chars).count '\n' ∧
      t.span.col =
        1 + ((Text.takeBytes t.span.start source.chars).rtakeWhile (· ≠ '\n')).length ∧
      (t.isLayout = false → t.text.toList.takeWhile (· ≠ '\n') <+:
        (source.line (t.span.line - 1)).toList.drop (t.span.col - 1)) := by
  intro t ht
  have start : (Lexer.start source).Located source.readChars := ⟨.start source, by rintro _ ⟨⟩⟩
  obtain ⟨cursor, located, line, col, offset⟩ := (start.gives h).1 t ht
  obtain ⟨before, rest, whole, follows, taken, dropped⟩ := before_eq located
  have absent {c : Char} (hc : c ∉ source.chars) : c ∉ before := by
    rw [whole] at hc
    exact fun hb => hc (List.mem_append_left _ hb)
  have column := follows.col (absent htab) (absent hreturn)
  rw [offset, taken]
  refine ⟨line.trans follows.line, col.trans column, fun _ => ?_⟩
  have covered := covered_of_gives h (Lexer.settled_of_pending rfl) (.start source)
  have front : t.text.toList <+: rest := by
    rw [← covered.text t ht, Span.text, String.toList_ofList, Text.slice, offset, dropped]
    exact Text.takeBytes_prefix _ _
  have number : t.span.line - 1 = before.count '\n' := by
    rw [line, follows.line, Nat.add_sub_cancel_left]
  rw [number, line_around whole hreturn, col, column, Nat.add_sub_cancel_left, List.drop_left]
  exact takeWhile_prefix_of_prefix front

/-- A text with a string over two lines, a comment in brackets and long characters. -/
def overLines : Source where
  file := "main.py"
  text := "if x:\n  y = \"\"\"\u00e9\nz\"\"\" + (1, # \u00fc\n   2)\n"

theorem overLines_positions : ∃ ts after, (Lexer.start overLines).Gives ts after ∧
    ts.map (fun t => (t.span.line, t.span.col)) =
      [(1, 1), (1, 4), (1, 5), (1, 6), (2, 3), (2, 3), (2, 5), (2, 7), (3, 6), (3, 8), (3, 9),
       (3, 10), (4, 4), (4, 5), (4, 6), (5, 1), (5, 1)] ∧
    ∀ t ∈ ts,
      t.span.line = 1 + (Text.takeBytes t.span.start overLines.chars).count '\n' ∧
      t.span.col =
        1 + ((Text.takeBytes t.span.start overLines.chars).rtakeWhile (· ≠ '\n')).length ∧
      (t.isLayout = false → t.text.toList.takeWhile (· ≠ '\n') <+:
        (overLines.line (t.span.line - 1)).toList.drop (t.span.col - 1)) := by
  have found : ((Lexer.start overLines).tokens? 30).map
      (List.map fun t => (t.span.line, t.span.col)) =
        some [(1, 1), (1, 4), (1, 5), (1, 6), (2, 3), (2, 3), (2, 5), (2, 7), (3, 6), (3, 8),
          (3, 9), (3, 10), (4, 4), (4, 5), (4, 6), (5, 1), (5, 1)] := by decide +kernel
  obtain ⟨ts, hts, places⟩ := Option.map_eq_some_iff.1 found
  obtain ⟨-, after, gives⟩ := Lexer.gives_of_tokens hts
  exact ⟨ts, after, gives, places,
    token_positions_exact (by decide +kernel) (by decide +kernel) gives⟩

end Source

end SdkUsage
