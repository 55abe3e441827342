/-
How the lexer finds its next token. `Finds` lists the ways: a token waits, a
line starts or ends, the text ends, or a token stands at the front of the text
after what may stand between tokens. It is the same as `Lexer.next`
(`next_eq_ok_iff`), so a fact about tokens is proved along these ways. `Errs` lists
the ways to an error in the same manner (`next_error`).
-/
import SdkUsage.Proofs.Token.Front

namespace SdkUsage

variable {after : Lexer} {first : Cursor} {c : Char}

/-! ## Cursors -/

namespace Cursor

theorem rest_step (cursor : Cursor) : cursor.step.rest = cursor.rest.drop 1 := by
  unfold step
  split
  · next h => simp [h]
  · next h => simp [h]

theorem rest_advance (n : Nat) (cursor : Cursor) : (cursor.advance n).rest = cursor.rest.drop n := by
  induction n generalizing cursor with
  | zero => rfl
  | succ n ih => rw [advance, ih, rest_step, List.drop_drop, Nat.add_comm]

theorem rest_nextLine (cursor : Cursor) : cursor.nextLine.rest = cursor.rest.drop 1 := by
  unfold nextLine
  split
  · next h => simp [h]
  · next h => simp [h]

theorem length_indentation (width : Nat) (comment : Bool) (rest : List Char)
    (offset line col : Nat) :
    (indentation width comment rest offset line col).2.rest.length ≤ rest.length := by
  fun_induction indentation width comment rest offset line col <;> simp_all <;> omega

theorem length_blanks (joined comment : Bool) (rest : List Char) (offset line col : Nat) :
    (blanks joined comment rest offset line col).2.rest.length ≤ rest.length := by
  fun_induction blanks joined comment rest offset line col <;> simp_all <;> omega

end Cursor

/-! ## Scanning a token -/

/-- A position and a later one, with the text between them. -/
structure Cursor.Passes (first : Cursor) (text : List Char) (last : Cursor) : Prop where
  rest : first.rest = text ++ last.rest
  offset : last.offset = first.offset + Text.byteLength text

namespace Cursor

theorem Passes.refl (cursor : Cursor) : cursor.Passes [] cursor := ⟨rfl, rfl⟩

theorem Passes.trans {middle last : Cursor} {text text' : List Char} (h : first.Passes text middle)
    (h' : middle.Passes text' last) : first.Passes (text ++ text') last :=
  ⟨by rw [h.rest, h'.rest, List.append_assoc],
    by rw [h'.offset, h.offset, Text.byteLength_append, Nat.add_assoc]⟩

theorem advance_passes {cursor : Cursor} {text after : List Char} (h : cursor.rest = text ++ after) :
    cursor.Passes text (cursor.advance text.length) := by
  induction text generalizing cursor with
  | nil => exact .refl cursor
  | cons c cs ih =>
    have step : cursor.Passes [c] cursor.step := by
      unfold Cursor.step
      rw [h]
      exact ⟨h, rfl⟩
    exact step.trans (ih (by rw [rest_step, h]; rfl))

theorem nextLine_passes {cursor : Cursor} {cs : List Char} (h : cursor.rest = '\n' :: cs) :
    cursor.Passes ['\n'] cursor.nextLine := by
  unfold nextLine
  rw [h]
  exact ⟨h, rfl⟩

/-- What reading from a text at an offset found is the given text, passed, or nothing. -/
structure Yields (rest : List Char) (offset : Nat) (text? : Option (List Char))
    (found : Bool × Cursor) : Prop where
  isSome : found.1 = text?.isSome
  rest : ∀ text ∈ text?, rest = text ++ found.2.rest
  offset : ∀ text ∈ text?, found.2.offset = offset + Text.byteLength text

theorem Yields.cons {c : Char} {cs : List Char} {offset offset' : Nat}
    {text? : Option (List Char)} {found : Bool × Cursor} (ho : offset' = offset + c.utf8Size)
    (h : Yields cs offset' text? found) : Yields (c :: cs) offset (text?.map (c :: ·)) found := by
  refine ⟨by rw [h.isSome, Option.isSome_map], fun text ht => ?_, fun text ht => ?_⟩
  all_goals obtain ⟨inner, hinner, rfl⟩ := Option.map_eq_some_iff.1 ht
  · exact congrArg (c :: ·) (h.rest inner hinner)
  · rw [h.offset inner hinner, ho, Text.byteLength_cons, Nat.add_assoc]

theorem Yields.nothing {rest : List Char} {offset : Nat} {last : Cursor} :
    Yields rest offset none (false, last) :=
  ⟨rfl, by simp, by simp⟩

/-- Reading the inside of a string passes it if it is closed. -/
theorem stringBody_yields {quote : Char} (hq : quote ≠ '\n') (triple : Bool) (rest : List Char)
    (offset line col : Nat) :
    Yields rest offset (bodyAt? quote triple false rest)
      (stringBody quote triple rest offset line col) := by
  fun_induction stringBody quote triple rest offset line col with
  | case1 | case2 => exact .nothing
  | case3 offset line col cs ih => exact .cons rfl (.cons rfl ih)
  | case4 offset line col d cs hd ih => exact .cons rfl (.cons rfl ih)
  | case5 offset line col cs htriple hescape ih =>
    have next : bodyAt? quote triple false ('\n' :: cs) =
        (bodyAt? quote triple false cs).map ('\n' :: ·) := by
      simp [bodyAt?, htriple, Ne.symm hq]
    rw [next]
    exact .cons rfl ih
  | case6 offset line col cs hplain hescape =>
    have unclosed : bodyAt? quote triple false ('\n' :: cs) = none := by
      simp [bodyAt?, hplain]
    rw [unclosed]
    exact .nothing
  | case7 offset line col cs hplain hescape hline =>
    have closed : bodyAt? quote triple false (quote :: cs) = some [quote] := by
      simp_all [bodyAt?]
    rw [closed]
    exact ⟨rfl, by simp, by simp⟩
  | case8 offset line col cs htriple hclose hescape hline =>
    have closed : bodyAt? quote triple false (quote :: cs) = some [quote, quote, quote] := by
      simp_all [bodyAt?]
    obtain ⟨after, rfl⟩ := List.isPrefixOf_iff_prefix.1 hclose
    rw [closed]
    refine ⟨rfl, by simp, ?_⟩
    simp only [Option.mem_some, forall_eq', Text.byteLength_cons, Text.byteLength_nil]
    omega
  | case9 offset line col cs htriple hopen hescape hline ih =>
    have next : bodyAt? quote triple false (quote :: cs) =
        (bodyAt? quote triple false cs).map (quote :: ·) := by
      simp_all [bodyAt?]
    rw [next]
    exact .cons rfl ih
  | case10 offset line col cs hescape hline hquote ih =>
    have next : bodyAt? quote triple false ('\t' :: cs) =
        (bodyAt? quote triple false cs).map ('\t' :: ·) := by
      simp [bodyAt?, hquote]
    rw [next]
    exact .cons rfl ih
  | case11 offset line col c cs hescape hline hquote htab ih =>
    have next : bodyAt? quote triple false (c :: cs) =
        (bodyAt? quote triple false cs).map (c :: ·) := by
      simp [bodyAt?, hescape, hline, hquote]
    rw [next]
    exact .cons rfl ih

theorem quote_of_startsQuote {cs : List Char} (h : startsQuote (c :: cs) = true) :
    c = '"' ∨ c = '\'' := by
  simpa [startsQuote] using h

/-- Reading a string passes it if it is closed. -/
theorem readString_yields {cursor : Cursor} (h : startsQuote cursor.rest = true) :
    Yields cursor.rest cursor.offset (stringAt? cursor.rest) cursor.readString := by
  obtain ⟨rest, offset, line, col⟩ := cursor
  rcases rest with _ | ⟨c, cs⟩
  · cases h
  · have size : c.utf8Size = 1 ∧ c ≠ '\n' := by
      rcases quote_of_startsQuote h with rfl | rfl <;> decide
    unfold readString
    dsimp only [peek, List.headD_cons, stringAt?]
    split
    · next ht =>
      rcases cs with _ | ⟨d, _ | ⟨e, cs⟩⟩
      · cases ht
      · cases ht
      · simp only [isTriple, Bool.and_eq_true, decide_eq_true_eq] at ht
        obtain ⟨rfl, rfl⟩ := ht
        have found := Yields.cons rfl (.cons rfl (.cons rfl
          (stringBody_yields size.2 true cs (offset + c.utf8Size + c.utf8Size + c.utf8Size) line
            (col + 1 + 1 + 1))))
        simp only [Option.map_map] at found
        rw [show isTriple (c :: c :: c :: cs) = true by simp [isTriple]]
        exact found
    · next ht =>
      rw [Bool.not_eq_true] at ht
      rw [ht]
      exact .cons rfl (stringBody_yields size.2 false cs _ _ _)

end Cursor

namespace Lexer

variable {lexer : Lexer} {kind : TokenKind} {text : List Char}

/-- The lexer after a token. -/
def passToken (lexer : Lexer) (kind : TokenKind) (text : List Char) (last : Cursor) : Lexer :=
  { lexer with
    cursor := last
    depth := if kind = .symbol then depthAfter text lexer.depth else lexer.depth }

/-- The token between two positions. -/
def tokenBetween (kind : TokenKind) (text : List Char) (first last : Cursor) : Token :=
  ⟨kind, String.ofList text, last.spanFrom first⟩

theorem token_eq {kind : TokenKind} {last : Cursor} {text : List Char}
    (h : first.Passes text last) : token kind first last = tokenBetween kind text first last := by
  rw [token, tokenBetween, h.offset, Nat.add_sub_cancel_left, h.rest, Text.takeBytes_append]

/-- The rest of a string whose first letters, if any, were passed. -/
theorem scanString_of_stringAt (lexer : Lexer) {word string : List Char}
    (hword : first.Passes word lexer.cursor) (hq : startsQuote lexer.cursor.rest = true)
    (h : Cursor.stringAt? lexer.cursor.rest = some string) :
    ∃ last, first.Passes (word ++ string) last ∧ lexer.scanString first =
      (some (.ok (tokenBetween .string (word ++ string) first last)),
        lexer.passToken .string (word ++ string) last) := by
  have found := Cursor.readString_yields hq
  rw [h] at found
  have passed : first.Passes (word ++ string) lexer.cursor.readString.2 :=
    hword.trans ⟨found.rest string rfl, found.offset string rfl⟩
  refine ⟨_, passed, ?_⟩
  have closed : lexer.cursor.readString.1 = true := found.isSome
  simp only [scanString, closed, if_true, token_eq passed]
  rfl

/-- A token that does not end a line is of the class its first characters tell. -/
theorem scanToken_eq {cs : List Char} (hr : lexer.cursor.rest = c :: cs) (hc : c ≠ '\n') :
    lexer.scanToken =
      if startsQuote lexer.cursor.rest then lexer.scanString lexer.cursor
      else if startsNumber lexer.cursor.rest then lexer.scanNumber
      else if lexer.cursor.rest.head?.any Cursor.isWordStart then lexer.scanWord
      else lexer.scanSymbol := by
  unfold scanToken
  rw [hr]
  simp only [if_neg hc, startsQuote, startsNumber, List.head?_cons, Option.some.injEq,
    Option.any_some, Bool.or_eq_true, decide_eq_true_eq]
  split_ifs <;> simp_all

theorem startsQuote_rest (cursor : Cursor) :
    startsQuote cursor.rest = (cursor.peek = '"' || cursor.peek = '\'') := by
  unfold Cursor.peek
  cases cursor.rest with
  | nil => rfl
  | cons c cs => simp [startsQuote]

/-- A text with a token in front does not start with a line feed. -/
theorem exists_cons_of_tokenAt? {text token : List Char} {kind : TokenKind}
    (h : tokenAt? text = some (kind, token)) : ∃ c cs, text = c :: cs ∧ c ≠ '\n' := by
  obtain ⟨⟨after, rfl⟩, nonempty, -⟩ := tokenAt?_front h
  obtain ⟨c, cs, rfl⟩ := List.exists_cons_of_ne_nil nonempty
  refine ⟨c, cs ++ after, rfl, ?_⟩
  rintro rfl
  rw [List.cons_append, tokenAt?_gap (by decide)] at h
  cases h

/-- **The token at the front of the text is scanned.** -/
theorem scanToken_of_tokenAt (lexer : Lexer) (h : tokenAt? lexer.cursor.rest = some (kind, text)) :
    ∃ last, lexer.cursor.Passes text last ∧ lexer.scanToken =
      (some (.ok (tokenBetween kind text lexer.cursor last)), lexer.passToken kind text last) := by
  obtain ⟨⟨after, hafter⟩, -, -⟩ := tokenAt?_front h
  obtain ⟨c, cs, hr, hc⟩ := exists_cons_of_tokenAt? h
  have advanced := Cursor.advance_passes hafter.symm
  rw [scanToken_eq hr hc]
  unfold tokenAt? at h
  split at h
  · next hq =>
    obtain ⟨string, hstring, heq⟩ := Option.map_eq_some_iff.1 h
    cases heq
    rw [if_pos hq]
    exact scanString_of_stringAt lexer (.refl _) hq hstring
  next hq =>
  rw [if_neg hq]
  split at h
  · next hn =>
    rw [if_pos hn]
    split at h
    · next hnumber =>
      cases h
      exact ⟨_, advanced, by simp only [scanNumber, hnumber, if_true]; rfl⟩
    · cases h
  next hn =>
  rw [if_neg hn]
  split at h
  · next hw =>
    rw [if_pos hw]
    have passed : lexer.cursor.Passes (Cursor.wordAt lexer.cursor.rest)
        (lexer.cursor.advance (Cursor.wordAt lexer.cursor.rest).length) :=
      Cursor.advance_passes (List.takeWhile_append_dropWhile).symm
    rw [← Cursor.rest_advance, wordTokenAt?] at h
    unfold scanWord
    dsimp only
    rw [← startsQuote_rest]
    split at h
    · next hopen =>
      obtain ⟨string, hstring, heq⟩ := Option.map_eq_some_iff.1 h
      cases heq
      rw [if_pos hopen]
      exact scanString_of_stringAt { lexer with cursor := _ } passed
        (Bool.and_eq_true_iff.1 hopen).1 hstring
    · next hopen =>
      cases h
      rw [if_neg hopen]
      exact ⟨_, passed, rfl⟩
  · next hw =>
    rw [if_neg hw]
    obtain ⟨symbol, hsymbol, heq⟩ := Option.map_eq_some_iff.1 h
    cases heq
    exact ⟨_, advanced, by simp only [scanSymbol, hsymbol]; rfl⟩

/-- What is wrong with a text that is no token. -/
def tokenCauses : List SyntaxError.Cause := [.unterminatedString, .invalidNumber, .invalidCharacter]

/-- Where there is no token, scanning one fails at the position. -/
theorem scanToken_of_none (lexer : Lexer) {cs : List Char} (hr : lexer.cursor.rest = c :: cs)
    (hc : c ≠ '\n') (h : tokenAt? lexer.cursor.rest = none) :
    ∃ cause ∈ tokenCauses, ∃ after,
      lexer.scanToken = (some (.error (.atSpan lexer.cursor.here cause)), after) := by
  have unclosed (l : Lexer) (first : Cursor) (hq : startsQuote l.cursor.rest = true)
      (hs : Cursor.stringAt? l.cursor.rest = none) : ∃ cause ∈ tokenCauses, ∃ after,
        l.scanString first = (some (.error (.atSpan first.here cause)), after) := by
    have found := Cursor.readString_yields hq
    rw [hs] at found
    have closed : l.cursor.readString.1 = false := found.isSome
    exact ⟨.unterminatedString, by simp [tokenCauses], _, by
      simp only [scanString, closed, Bool.false_eq_true, if_false]; rfl⟩
  rw [scanToken_eq hr hc]
  unfold tokenAt? at h
  split at h
  · next hq =>
    rw [if_pos hq]
    exact unclosed lexer _ hq (Option.map_eq_none_iff.1 h)
  next hq =>
  rw [if_neg hq]
  split at h
  · next hn =>
    rw [if_pos hn]
    split at h
    · cases h
    · next hnumber =>
      exact ⟨.invalidNumber, by simp [tokenCauses], _, by simp only [scanNumber, hnumber]; rfl⟩
  next hn =>
  rw [if_neg hn]
  split at h
  · next hw =>
    rw [if_pos hw]
    rw [← Cursor.rest_advance, wordTokenAt?] at h
    unfold scanWord
    dsimp only
    rw [← startsQuote_rest]
    split at h
    · next hopen =>
      rw [if_pos hopen]
      exact unclosed { lexer with cursor := _ } _ (Bool.and_eq_true_iff.1 hopen).1
        (Option.map_eq_none_iff.1 h)
    · cases h
  · next hw =>
    rw [if_neg hw]
    exact ⟨.invalidCharacter, by simp [tokenCauses], _, by
      simp only [scanSymbol, Option.map_eq_none_iff.1 h]; rfl⟩

/-- Where scanning a token leads: behind characters of one line, and behind a string that may
come after them. -/
theorem scanToken_cursor {cs : List Char} (hr : lexer.cursor.rest = c :: cs) (hc : c ≠ '\n') :
    ∃ word after, lexer.cursor.rest = word ++ after ∧ '\n' ∉ word ∧
      (lexer.scanToken.2.cursor = lexer.cursor.advance word.length ∨ startsQuote after = true ∧
        lexer.scanToken.2.cursor = (lexer.cursor.advance word.length).readString.2) := by
  have string (l : Lexer) (first : Cursor) :
      (l.scanString first).2.cursor = l.cursor.readString.2 := by
    unfold scanString
    dsimp only
    split <;> rfl
  rw [scanToken_eq hr hc]
  split
  · next hq => exact ⟨[], _, rfl, by simp, .inr ⟨hq, string lexer _⟩⟩
  split
  · obtain ⟨after, hafter⟩ := Cursor.numberRun_prefix (Cursor.isHexadecimal lexer.cursor.rest) ' '
      lexer.cursor.rest
    refine ⟨_, after, hafter.symm, fun hm => absurd (Cursor.mem_numberRun hm) (by decide), .inl ?_⟩
    unfold scanNumber
    dsimp only
    split <;> rfl
  split
  · have front : Cursor.wordAt lexer.cursor.rest <+: lexer.cursor.rest := List.takeWhile_prefix _
    refine ⟨_, _, (List.prefix_iff_eq_append.1 front).symm,
      fun hm => absurd (List.all_eq_true.1 List.all_takeWhile _ hm) (by decide), ?_⟩
    unfold scanWord
    dsimp only
    rw [← startsQuote_rest]
    split
    · next hopen =>
      have hq := (Bool.and_eq_true_iff.1 hopen).1
      rw [Cursor.rest_advance] at hq
      exact .inr ⟨hq, string _ _⟩
    · exact .inl rfl
  · unfold scanSymbol
    dsimp only
    cases hsymbol : symbolAt? lexer.cursor.rest with
    | none => exact ⟨[], _, rfl, by simp, .inl rfl⟩
    | some symbol =>
      obtain ⟨listed, -, after, hafter⟩ := symbolAt?_front hsymbol
      exact ⟨symbol, after, hafter.symm, gapStarts_symbol (by decide) symbol listed, .inl rfl⟩

/-! ## Ways to the next token -/

/-- The lexer is in a line, or inside brackets. -/
def InLine (lexer : Lexer) : Prop := ¬ (lexer.lineStart = true ∧ lexer.depth = 0)

/-- Blanks in a line lead to a position. -/
structure Reaches (lexer : Lexer) (cursor : Cursor) : Prop where
  pending : lexer.pending = []
  inLine : lexer.InLine
  blanks : lexer.cursor.skipBlanks (0 < lexer.depth) = (true, cursor)

/-- A line starts, and reading its indentation gives a width, or none at the end of the
text, and leads to a position. -/
structure Starts (lexer : Lexer) (width : Option Nat) (cursor : Cursor) : Prop where
  pending : lexer.pending = []
  lineStart : lexer.lineStart = true
  depth : lexer.depth = 0
  indentation : lexer.cursor.readIndentation = (width, cursor)

/-- The lexer after the indentation of a line. -/
def atIndented (lexer : Lexer) (cursor : Cursor) : Lexer :=
  { lexer with cursor, lineStart := false }

/-- The lexer after the end of a line. -/
def atNextLine (lexer : Lexer) (cursor : Cursor) : Lexer :=
  { lexer with cursor := cursor.nextLine, lineStart := true, lineOpen := false }

/-- The token for the end of a line. -/
def lineEndToken (cursor : Cursor) : Token := ⟨.newline, "\n", cursor.nextLine.spanFrom cursor⟩

/-- The ways in which a lexer finds a token and becomes another lexer. -/
inductive Finds : Lexer → Token → Lexer → Prop
  | waiting {l t ts} : l.pending = t :: ts → Finds l t (noteToken t { l with pending := ts })
  | indented {l width cursor l' t l''} : l.Starts (some width) cursor →
      (l.atIndented cursor).indentTo width = (none, l') → Finds l' t l'' → Finds l t l''
  | ended {l cursor t l'} : l.Starts none cursor →
      (l.atIndented cursor).finish = (some (.ok t), l') → Finds l t (noteToken t l')
  | finished {l cursor t l'} : l.Reaches cursor → cursor.rest = [] →
      finish { l with cursor } = (some (.ok t), l') → Finds l t (noteToken t l')
  | lineEnd {l cursor cs} : l.Reaches cursor → cursor.rest = '\n' :: cs → l.lineOpen = true →
      Finds l (lineEndToken cursor) (l.atNextLine cursor)
  | emptyLine {l cursor cs t l'} : l.Reaches cursor → cursor.rest = '\n' :: cs →
      l.lineOpen = false → Finds (l.atNextLine cursor) t l' → Finds l t l'
  | word {l cursor kind text last} : l.Reaches cursor → tokenAt? cursor.rest = some (kind, text) →
      cursor.Passes text last →
      scanToken { l with cursor } =
        (some (.ok (tokenBetween kind text cursor last)), l.passToken kind text last) →
      Finds l (tokenBetween kind text cursor last)
        { l.passToken kind text last with lineOpen := true }

/-- The ways in which a lexer comes to an error: the position, and what is wrong there. -/
inductive Errs : Lexer → Cursor → SyntaxError.Cause → Prop
  | indented {l width cursor l' place cause} : l.Starts (some width) cursor →
      (l.atIndented cursor).indentTo width = (none, l') → Errs l' place cause → Errs l place cause
  | unmatched {l width cursor} : l.Starts (some width) cursor →
      Errs l cursor .unmatchedIndentation
  | broken {l cursor} : l.cursor.skipBlanks (0 < l.depth) = (false, cursor) →
      Errs l cursor .brokenContinuation
  | emptyLine {l cursor cs place cause} : l.Reaches cursor → cursor.rest = '\n' :: cs →
      Errs (l.atNextLine cursor) place cause → Errs l place cause
  | word {l cursor cause} : l.Reaches cursor → cause ∈ tokenCauses → Errs l cursor cause

/-! ## One scan -/

theorem scan_of_pending {t : Token} {ts : List Token} (h : lexer.pending = t :: ts) :
    lexer.scan = (some (.ok t), { lexer with pending := ts }) := by
  simp only [scan, givePending, h]

theorem scan_of_inLine (hp : lexer.pending = []) (hl : lexer.InLine) :
    lexer.scan = lexer.scanInLine := by
  have inLine : (lexer.lineStart && lexer.depth = 0) = false := by
    by_contra h
    exact hl (by simpa using h)
  simp only [scan, givePending, hp, inLine, Bool.false_eq_true, if_false]

theorem scan_of_reaches {cursor : Cursor} (h : lexer.Reaches cursor) :
    lexer.scan = scanToken { lexer with cursor } := by
  simp only [scan_of_inLine h.pending h.inLine, scanInLine, h.blanks, if_true]

theorem scan_of_lineEnd {cursor : Cursor} {cs : List Char} (h : lexer.Reaches cursor)
    (hr : cursor.rest = '\n' :: cs) :
    lexer.scan = (if lexer.lineOpen then some (.ok (lineEndToken cursor)) else none,
      { lexer with cursor := cursor.nextLine, lineStart := true }) := by
  rw [scan_of_reaches h]
  simp only [scanToken, hr, if_true, scanLineEnd]
  split <;> rfl

theorem scan_of_lineStart (hp : lexer.pending = []) (hs : lexer.lineStart = true)
    (hd : lexer.depth = 0) : lexer.scan = lexer.scanAtLineStart := by
  simp only [scan, givePending, hp, hs, hd, decide_true, Bool.and_self, if_true]

/-- Comparing an indentation with the open blocks changes the blocks, and makes tokens wait
that open or close some. An error is at the position. -/
theorem indentTo_spec (lexer : Lexer) (width : Nat) :
    ∃ blocks, ∃ kinds : List TokenKind, (∀ kind ∈ kinds, kind = .indent ∨ kind = .dedent) ∧
      (lexer.indentTo width).2 =
        { lexer with blocks, pending := lexer.pending ++ kinds.map lexer.layoutToken } ∧
      ∀ error ∈ (lexer.indentTo width).1,
        error = .atSpan lexer.cursor.here .unmatchedIndentation := by
  unfold indentTo
  split
  · exact ⟨_, [.indent], by simp, rfl, by simp⟩
  · have closed : (lexer.blocks.takeWhile (width < ·)).map (fun _ => lexer.layoutToken .dedent) =
        ((lexer.blocks.takeWhile (width < ·)).map fun _ => .dedent).map lexer.layoutToken := by
      simp
    have dedents : ∀ kind ∈ (lexer.blocks.takeWhile (width < ·)).map fun _ => TokenKind.dedent,
        kind = .indent ∨ kind = .dedent := by
      intro kind hk
      obtain ⟨_, -, rfl⟩ := List.mem_map.1 hk
      exact .inr rfl
    dsimp only
    rw [closed]
    split
    · exact ⟨_, _, dedents, rfl, by simp⟩
    · exact ⟨_, _, dedents, rfl, by simp⟩

theorem indentTo_lineStart (lexer : Lexer) (width : Nat) :
    (lexer.indentTo width).2.lineStart = lexer.lineStart := by
  obtain ⟨_, _, -, after, -⟩ := lexer.indentTo_spec width
  rw [after]

theorem indentTo_cursor (lexer : Lexer) (width : Nat) :
    (lexer.indentTo width).2.cursor = lexer.cursor := by
  obtain ⟨_, _, -, after, -⟩ := lexer.indentTo_spec width
  rw [after]

theorem indentTo_depth (lexer : Lexer) (width : Nat) :
    (lexer.indentTo width).2.depth = lexer.depth := by
  obtain ⟨_, _, -, after, -⟩ := lexer.indentTo_spec width
  rw [after]

theorem indentTo_lineOpen (lexer : Lexer) (width : Nat) :
    (lexer.indentTo width).2.lineOpen = lexer.lineOpen := by
  obtain ⟨_, _, -, after, -⟩ := lexer.indentTo_spec width
  rw [after]

/-- The tokens at the end of a text. -/
def closingTokens (lexer : Lexer) : List Token :=
  (if lexer.lineOpen then [lexer.layoutToken .newline] else [])
    ++ (lexer.blocks.map (fun _ => lexer.layoutToken .dedent) ++ [lexer.layoutToken .eof])

theorem mem_closingTokens {t : Token} (h : t ∈ lexer.closingTokens) :
    ∃ kind ∈ [TokenKind.newline, .dedent, .eof], t = lexer.layoutToken kind := by
  unfold closingTokens at h
  simp only [List.mem_append, List.mem_map, List.mem_singleton] at h
  rcases h with h | ⟨_, _, rfl⟩ | rfl
  · split at h
    · exact ⟨.newline, by simp, List.mem_singleton.1 h⟩
    · cases h
  · exact ⟨.dedent, by simp, rfl⟩
  · exact ⟨.eof, by simp, rfl⟩

/-- At the end of a text the first of the tokens for it is given, and the others wait. -/
theorem finish_eq (lexer : Lexer) (hp : lexer.pending = []) :
    ∃ t ts, lexer.finish =
        (some (.ok t), { lexer with blocks := [], lineOpen := false, pending := ts }) ∧
      lexer.closingTokens = t :: ts := by
  unfold finish closingTokens
  dsimp only
  rw [← List.append_assoc]
  split
  · next hnil => exact ⟨_, [], by rw [hp], by rw [hnil]; rfl⟩
  · next heq => exact ⟨_, _, rfl, by rw [heq]; rfl⟩

theorem finish_ok {t : Token} (h : lexer.finish = (some (.ok t), after)) (hp : lexer.pending = []) :
    ∃ ts, after = { lexer with blocks := [], lineOpen := false, pending := ts } ∧
      lexer.closingTokens = t :: ts := by
  obtain ⟨u, ts, hf, closing⟩ := finish_eq lexer hp
  cases hf.symm.trans h
  exact ⟨ts, rfl, closing⟩

/-- After its indentation a line is scanned as any other. -/
theorem scan_of_indented {width : Nat} {cursor : Cursor} (h : lexer.Starts (some width) cursor)
    (hi : (lexer.atIndented cursor).indentTo width = (none, after)) : lexer.scan = after.scan := by
  have started : after.lineStart = false := by
    have same := indentTo_lineStart (lexer.atIndented cursor) width
    rwa [hi] at same
  have scanAfter : after.scan = after.givePending scanInLine := by
    unfold scan givePending
    split
    · rfl
    · simp only [started, Bool.false_and, Bool.false_eq_true, if_false]
  rw [atIndented] at hi
  rw [scanAfter, scan_of_lineStart h.pending h.lineStart h.depth]
  simp only [scanAtLineStart, h.indentation, hi]

theorem scan_of_ended {cursor : Cursor} (h : lexer.Starts none cursor) :
    lexer.scan = (lexer.atIndented cursor).finish := by
  rw [scan_of_lineStart h.pending h.lineStart h.depth]
  simp only [scanAtLineStart, h.indentation]
  rfl

/-- What a scan gives is found: a token or an error as it is, and nothing if the lexer that is
left finds it. -/
structure Scan.Found (lexer : Lexer) (scan : Scan) : Prop where
  token : ∀ t, scan.1 = some (.ok t) → lexer.Finds t (scan.2.noteToken t)
  error : ∀ e, scan.1 = some (.error e) →
    ∃ place cause, lexer.Errs place cause ∧ e = .atSpan place.here cause
  nothing : scan.1 = none → scan.2.cursor.rest.length < lexer.cursor.rest.length ∧
    scan.2.pending = [] ∧ (∀ t l, scan.2.Finds t l → lexer.Finds t l) ∧
    ∀ place cause, scan.2.Errs place cause → lexer.Errs place cause

theorem Scan.Found.ok {t : Token} {l : Lexer} (h : lexer.Finds t (l.noteToken t)) :
    Scan.Found lexer (some (.ok t), l) := by
  refine ⟨?_, by rintro _ ⟨⟩, by rintro ⟨⟩⟩
  rintro _ ⟨⟩
  exact h

theorem Scan.Found.failed {place : Cursor} {cause : SyntaxError.Cause} {l : Lexer}
    (h : lexer.Errs place cause) :
    Scan.Found lexer (some (.error (.atSpan place.here cause)), l) := by
  refine ⟨by rintro _ ⟨⟩, ?_, by rintro ⟨⟩⟩
  rintro _ ⟨⟩
  exact ⟨place, cause, h, rfl⟩

theorem noteToken_tokenBetween {last : Cursor} (hk : kind ∈ [.string, .number, .ident, .symbol])
    (l : Lexer) :
    l.noteToken (tokenBetween kind text first last) = { l with lineOpen := true } := by
  simp only [List.mem_cons, List.not_mem_nil, or_false] at hk
  rcases hk with rfl | rfl | rfl | rfl <;> rfl

/-- Scanning a token finds it. -/
theorem scanToken_found {cursor : Cursor} (h : lexer.Reaches cursor) :
    Scan.Found lexer (scanToken { lexer with cursor }) := by
  have shorter := Cursor.length_blanks (0 < lexer.depth) false lexer.cursor.rest
    lexer.cursor.offset lexer.cursor.line lexer.cursor.col
  rw [show Cursor.blanks _ _ _ _ _ _ = (true, cursor) from h.blanks] at shorter
  cases hr : cursor.rest with
  | nil =>
    obtain ⟨t, ts, hf, -⟩ := finish_eq { lexer with cursor } h.pending
    simp only [scanToken, hr, hf]
    exact .ok (.finished h hr hf)
  | cons c cs =>
    by_cases hc : c = '\n'
    · subst hc
      rw [← scan_of_reaches h, scan_of_lineEnd h hr]
      cases hopen : lexer.lineOpen with
      | true => exact .ok (.lineEnd h hr hopen)
      | false =>
        refine ⟨by rintro _ ⟨⟩, by rintro _ ⟨⟩, fun _ => ⟨?_, h.pending,
          fun t l hl => .emptyLine h hr hopen hl, fun place cause he => .emptyLine h hr he⟩⟩
        simp only [Cursor.rest_nextLine, List.length_drop, hr, List.length_cons] at shorter ⊢
        omega
    · cases ht : tokenAt? cursor.rest with
      | none =>
        obtain ⟨cause, hcause, after, hs⟩ := scanToken_of_none { lexer with cursor } hr hc ht
        rw [hs]
        exact .failed (.word h hcause)
      | some found =>
        obtain ⟨kind, text⟩ := found
        obtain ⟨last, passes, hs⟩ := scanToken_of_tokenAt { lexer with cursor } ht
        rw [hs]
        refine .ok ?_
        rw [noteToken_tokenBetween (tokenAt?_front ht).2.2]
        exact .word h ht passes hs

theorem scan_found_of_pending {t : Token} {ts : List Token} (h : lexer.pending = t :: ts) :
    Scan.Found lexer lexer.scan := by
  rw [scan_of_pending h]
  exact .ok (.waiting h)

theorem scan_found_of_inLine (hl : lexer.InLine) : Scan.Found lexer lexer.scan := by
  cases hp : lexer.pending with
  | cons t ts => exact scan_found_of_pending hp
  | nil =>
    cases hb : lexer.cursor.skipBlanks (0 < lexer.depth) with
    | mk joined cursor =>
      simp only [scan_of_inLine hp hl, scanInLine, hb]
      cases joined with
      | true => exact scanToken_found ⟨hp, hl, hb⟩
      | false => exact .failed (.broken hb)

/-- A scan at the start of a line goes on in the line, or ends. -/
theorem scan_found_of_starts {width? : Option Nat} {cursor : Cursor}
    (h : lexer.Starts width? cursor) : Scan.Found lexer lexer.scan := by
  have shorter := Cursor.length_indentation 0 false lexer.cursor.rest
    lexer.cursor.offset lexer.cursor.line lexer.cursor.col
  rw [show Cursor.indentation _ _ _ _ _ _ = (width?, cursor) from h.indentation] at shorter
  cases width? with
  | none =>
    obtain ⟨t, ts, hf, -⟩ := finish_eq (lexer.atIndented cursor) h.pending
    rw [scan_of_ended h, hf]
    exact .ok (.ended h hf)
  | some width =>
    obtain ⟨_, _, -, moved, errors⟩ := (lexer.atIndented cursor).indentTo_spec width
    cases hi : (lexer.atIndented cursor).indentTo width with
    | mk failed after =>
      rw [hi] at moved errors
      cases failed with
      | some error =>
        rw [atIndented] at hi
        simp only [scan_of_lineStart h.pending h.lineStart h.depth, scanAtLineStart, h.indentation, hi]
        rw [errors error rfl]
        exact .failed (.unmatched h)
      | none =>
        have moved : after = _ := moved
        have inLine : after.InLine := fun hl => by rw [moved] at hl; cases hl.1
        have found := scan_found_of_inLine inLine
        rw [scan_of_indented h hi]
        refine ⟨fun t ht => .indented h hi (found.token t ht), fun e he => ?_, fun hn => ?_⟩
        · obtain ⟨place, cause, errs, heq⟩ := found.error e he
          exact ⟨place, cause, .indented h hi errs, heq⟩
        · obtain ⟨fewer, pending, finds, errs⟩ := found.nothing hn
          refine ⟨?_, pending, fun t l hl => .indented h hi (finds t l hl),
            fun place cause he => .indented h hi (errs place cause he)⟩
          rw [moved] at fewer
          rw [moved]
          exact Nat.lt_of_lt_of_le fewer shorter

/-- **Every scan finds what it gives.** -/
theorem scan_found (lexer : Lexer) : Scan.Found lexer lexer.scan := by
  by_cases hl : lexer.InLine
  · exact scan_found_of_inLine hl
  · obtain ⟨hs, hd⟩ : lexer.lineStart = true ∧ lexer.depth = 0 := by
      rwa [InLine, not_not] at hl
    cases hp : lexer.pending with
    | nil => exact scan_found_of_starts ⟨hp, hs, hd, rfl⟩
    | cons t ts => exact scan_found_of_pending hp

/-! ## The next token -/

/-- How many lines may be passed does not matter, if they are more than there are. -/
theorem scanLines_eq {m n : Nat} (hm : lexer.cursor.rest.length < m)
    (hn : lexer.cursor.rest.length < n) : scanLines m lexer = scanLines n lexer := by
  induction m generalizing lexer n with
  | zero => omega
  | succ m ih =>
    cases n with
    | zero => omega
    | succ n =>
      have found := scan_found lexer
      rw [scanLines, scanLines]
      cases hs : lexer.scan with
      | mk result after =>
        rw [hs] at found
        cases result with
        | some result => rfl
        | none =>
          have fewer : after.cursor.rest.length < lexer.cursor.rest.length := (found.nothing rfl).1
          exact ih (by omega) (by omega)

theorem next_eq_of_scan {l : Lexer} (h : lexer.scan = l.scan) : lexer.next = l.next := by
  rw [next, next, h]

theorem next_of_scan_some {t : Token} (h : lexer.scan = (some (.ok t), after)) :
    lexer.next = (.ok t, after.noteToken t) := by
  simp only [next, h]

/-- A line without tokens is passed. -/
theorem next_of_scan_none (h : lexer.scan = (none, after)) : lexer.next = after.next := by
  have found := scan_found after
  simp only [next, h]
  rw [scanLines]
  cases hs : after.scan with
  | mk result later =>
    cases result with
    | some result => rfl
    | none =>
      rw [hs] at found
      have fewer : later.cursor.rest.length < after.cursor.rest.length := (found.nothing rfl).1
      simp only [scanLines_eq fewer (Nat.lt_succ_self _)]

theorem Finds.next_eq {t : Token} (h : lexer.Finds t after) : lexer.next = (.ok t, after) := by
  induction h with
  | waiting hp => exact next_of_scan_some (scan_of_pending hp)
  | indented hs hi _ ih => rw [next_eq_of_scan (scan_of_indented hs hi), ih]
  | ended hs hf => exact next_of_scan_some ((scan_of_ended hs).trans hf)
  | finished hr hnil hf =>
    refine next_of_scan_some ?_
    rw [scan_of_reaches hr, ← hf]
    simp only [scanToken, hnil]
  | lineEnd hr hline hopen =>
    have scanned := scan_of_lineEnd hr hline
    rw [hopen, if_pos rfl] at scanned
    exact next_of_scan_some scanned
  | emptyLine hr hline hclosed _ ih =>
    have scanned := scan_of_lineEnd hr hline
    simp only [hclosed, Bool.false_eq_true, if_false] at scanned
    rw [next_of_scan_none scanned, ← hclosed, ← ih, atNextLine, hclosed]
  | word hr ht hpasses hs =>
    rw [next_of_scan_some ((scan_of_reaches hr).trans hs),
      noteToken_tokenBetween (tokenAt?_front ht).2.2]

/-- What a scan finds the lexer finds: lines without tokens are passed one after another. -/
theorem next_found (lexer : Lexer) :
    (∀ t after, lexer.next = (.ok t, after) → lexer.Finds t after) ∧
      ∀ e after, lexer.next = (.error e, after) →
        ∃ place cause, lexer.Errs place cause ∧ e = .atSpan place.here cause := by
  induction hn : lexer.cursor.rest.length using Nat.strongRecOn generalizing lexer with
  | ind n ih =>
    have found := scan_found lexer
    cases hs : lexer.scan with
    | mk result later =>
      rw [hs] at found
      cases result with
      | none =>
        rw [next_of_scan_none hs]
        obtain ⟨fewer, -, finds, errs⟩ := found.nothing rfl
        obtain ⟨tokens, errors⟩ := ih _ (hn ▸ fewer) later rfl
        refine ⟨fun t after h => finds t after (tokens t after h), fun e after h => ?_⟩
        obtain ⟨place, cause, he, heq⟩ := errors e after h
        exact ⟨place, cause, errs place cause he, heq⟩
      | some result =>
        simp only [next, hs]
        cases result with
        | ok u =>
          refine ⟨?_, by rintro _ _ ⟨⟩⟩
          rintro _ _ ⟨⟩
          exact found.token u rfl
        | error e =>
          refine ⟨by rintro _ _ ⟨⟩, ?_⟩
          rintro _ _ ⟨⟩
          exact found.error e rfl

/-- **The ways listed are all there are.** -/
theorem next_eq_ok_iff {t : Token} : lexer.next = (.ok t, after) ↔ lexer.Finds t after :=
  ⟨lexer.next_found.1 t after, Finds.next_eq⟩

theorem next_error {e : SyntaxError} (h : lexer.next = (.error e, after)) :
    ∃ place cause, lexer.Errs place cause ∧ e = .atSpan place.here cause :=
  lexer.next_found.2 e after h

end Lexer

end SdkUsage
