/-
The quotes of a string. The lexer counts them where a string starts, the decoder in the text of
the token. Both find the same number (`quoteLength_eq`), so that what is decoded is what stands
between the quotes that the lexer passed. The lexer passes a backslash together with the character
after it, so that the decoder never comes to a backslash with nothing behind it (`decodeWith_eq`).
-/
import SdkUsage.Proofs.Grammar.Expression
import SdkUsage.Proofs.Token.Layout

namespace SdkUsage

namespace Cursor

/-! ## The inside of a string -/

/-- A text is the inside of a string: the quotes that close it are those behind it. -/
def Inside (quote : Char) (triple : Bool) (text : List Char) : Prop :=
  bodyAt? quote triple false (text ++ List.replicate (if triple then 3 else 1) quote) =
    some (text ++ List.replicate (if triple then 3 else 1) quote)

section

variable {quote : Char} {triple : Bool} {c : Char} {cs : List Char}

/-- What comes after a character that is not a backslash is the inside of a string too. -/
theorem Inside.tail (h : Inside quote triple (c :: cs)) (hc : c ≠ '\\') :
    Inside quote triple cs := by
  unfold Inside at h ⊢
  generalize hq : List.replicate (if triple then 3 else 1) quote = quotes at h ⊢
  have length : quotes.length = if triple then 3 else 1 := by rw [← hq, List.length_replicate]
  simp only [List.cons_append, bodyAt?, Bool.false_eq_true, if_false, if_neg hc] at h
  split at h
  · cases h
  split at h
  · next hclose =>
    have short := congrArg List.length (Option.some.inj h)
    simp only [List.length_cons, List.length_append, List.length_nil, length, hclose.2] at short
    simp at short
  next hplain =>
  split at h
  · next hclose =>
    have short := congrArg List.length (Option.some.inj h)
    have htriple : triple = true := by simpa [hclose.1] using hplain
    simp only [List.length_cons, List.length_append, List.length_nil, length, htriple, if_true]
      at short
    omega
  · obtain ⟨body, hbody, heq⟩ := Option.map_eq_some_iff.1 h
    rw [hbody, (List.cons.inj heq).2]

/-- Behind a backslash there is a character, and what comes after it is the inside of a string
too. -/
theorem Inside.escape (h : Inside quote triple ('\\' :: cs)) :
    ∃ d ds, cs = d :: ds ∧ Inside quote triple ds := by
  have step (d : Char) (ds : List Char) : bodyAt? quote triple true (d :: ds) =
      (bodyAt? quote triple false ds).map (d :: ·) := rfl
  unfold Inside at h
  simp only [List.cons_append, bodyAt?, Bool.false_eq_true, if_false, if_true] at h
  obtain ⟨body, hbody, heq⟩ := Option.map_eq_some_iff.1 h
  obtain rfl := (List.cons.inj heq).2
  cases cs with
  | nil =>
    -- The first of the closing quotes is escaped, and the others are too few to close the string.
    obtain ⟨n, hn⟩ : ∃ n, (if triple then 3 else 1) = n + 1 := by cases triple <;> exact ⟨_, rfl⟩
    rw [hn, List.nil_append, List.replicate_succ, step] at hbody
    obtain ⟨rest, hrest, heq⟩ := Option.map_eq_some_iff.1 hbody
    have long := bodyAt?_length hrest
    rw [(List.cons.inj heq).2, hn, List.length_replicate] at long
    omega
  | cons d ds =>
    rw [List.cons_append, step] at hbody
    obtain ⟨rest, hrest, heq⟩ := Option.map_eq_some_iff.1 hbody
    rw [(List.cons.inj heq).2] at hrest
    exact ⟨d, ds, rfl, hrest⟩

theorem Inside.drop {n : Nat} (h : Inside quote triple cs) (hn : ∀ c ∈ cs.take n, c ≠ '\\') :
    Inside quote triple (cs.drop n) := by
  induction n generalizing cs with
  | zero => exact h
  | succ n ih =>
    cases cs with
    | nil => exact h
    | cons c cs =>
      rw [List.take_succ_cons, List.forall_mem_cons] at hn
      exact ih (h.tail hn.1) hn.2

end

/-- A string is its inside with quotes on both sides. -/
theorem stringAt?_quotes {rest string : List Char} (h : stringAt? rest = some string) :
    ∃ quote inner, rest.head? = some quote ∧ Inside quote (isTriple rest) inner ∧
      string = List.replicate (if isTriple rest then 3 else 1) quote ++
        (inner ++ List.replicate (if isTriple rest then 3 else 1) quote) := by
  cases rest with
  | nil => cases h
  | cons c cs =>
    rw [stringAt?] at h
    split at h
    · next ht =>
      obtain ⟨body, hbody, rfl⟩ := Option.map_eq_some_iff.1 h
      obtain ⟨inner, rfl⟩ := bodyAt?_closes hbody
      have whole := (bodyAt?_front hbody).2 []
      rw [List.append_nil] at whole
      rw [ht]
      exact ⟨c, inner, rfl, whole, rfl⟩
    · next ht =>
      obtain ⟨body, hbody, rfl⟩ := Option.map_eq_some_iff.1 h
      obtain ⟨inner, rfl⟩ := bodyAt?_closes hbody
      have whole := (bodyAt?_front hbody).2 []
      rw [List.append_nil] at whole
      rw [Bool.not_eq_true] at ht
      rw [ht]
      exact ⟨c, inner, rfl, whole, rfl⟩

end Cursor

namespace Grammar

/-! ## Escape sequences -/

/-- Decoding as `decodeFrom`, with other escape sequences. -/
def decodeWith (escape : List Char → Except SyntaxError.Cause Escape) :
    (skip : Nat) → List Char → Except SyntaxError.Cause (List Char)
  | _, [] => .ok []
  | skip + 1, _ :: cs => decodeWith escape skip cs
  | 0, c :: cs =>
    if c = '\\' then
      match escape cs with
      | .error cause => .error cause
      | .ok found => (decodeWith escape found.used cs).map (found.text ++ ·)
    else (decodeWith escape 0 cs).map (c :: ·)

theorem codePoint_used {count : Nat} {rest : List Char} {escape : Escape}
    (h : codePoint count rest = .ok escape) :
    escape.used = count + 1 ∧ ∀ c ∈ rest.take count, c ≠ '\\' := by
  unfold codePoint at h
  dsimp only at h
  split at h
  · next hdigits =>
    split at h
    · cases h
      refine ⟨rfl, fun c hc => ?_⟩
      rintro rfl
      have digit := List.all_eq_true.1 hdigits.2 _ hc
      revert digit
      decide
    · cases h
  · cases h

/-- No backslash is behind the first character of an escape sequence. -/
theorem escapeAt_used {c : Char} {cs : List Char} {escape : Escape}
    (h : escapeAt (c :: cs) = .ok escape) :
    ∃ n, escape.used = n + 1 ∧ ∀ d ∈ cs.take n, d ≠ '\\' := by
  rcases escapeAt_cons c cs with ⟨count, heq⟩ | ⟨text, n, heq, plain⟩
  · exact ⟨count, codePoint_used (heq.symm.trans h)⟩
  · cases heq.symm.trans h
    exact ⟨n, rfl, plain⟩

/-- **Decoding does not depend on what a backslash with nothing behind it stands for.** -/
theorem decodeWith_eq {quote : Char} {triple : Bool}
    {escape : List Char → Except SyntaxError.Cause Escape}
    (he : ∀ c cs, escape (c :: cs) = escapeAt (c :: cs)) {skip : Nat} {text : List Char}
    (h : Cursor.Inside quote triple (text.drop skip)) :
    decodeWith escape skip text = decodeFrom skip text := by
  fun_induction decodeFrom skip text with
  | case1 => rfl
  | case2 skip c cs ih => exact ih h
  | case3 cs cause hc =>
    obtain ⟨d, ds, rfl, -⟩ := h.escape
    simp [decodeWith, he, hc]
  | case4 cs found hc ih =>
    obtain ⟨d, ds, rfl, inside⟩ := h.escape
    obtain ⟨n, used, plain⟩ := escapeAt_used hc
    rw [used] at ih
    simp [decodeWith, he, hc, used, ih (inside.drop plain)]
  | case5 c cs hc ih => simp [decodeWith, hc, ih (h.tail hc)]

/-! ## Literals -/

section

variable {rest string inner quotes : List Char}

/-- The string at the front of a text starts with three quotes if the text does. -/
theorem startsTriple_eq (hq : startsQuote rest = true) (h : Cursor.stringAt? rest = some string) :
    (['"', '"', '"'].isPrefixOf string || ['\'', '\'', '\''].isPrefixOf string) =
      Cursor.isTriple rest := by
  obtain ⟨quote, inner, head, -, hstring⟩ := Cursor.stringAt?_quotes h
  cases ht : Cursor.isTriple rest with
  | true =>
    rw [ht] at hstring
    have quotes : quote = '"' ∨ quote = '\'' := by simpa [startsQuote, head] using hq
    rcases quotes with rfl | rfl <;> simp [hstring, List.replicate, List.isPrefixOf]
  | false =>
    have apart (q : Char) : [q, q, q].isPrefixOf string = false := by
      by_contra hprefix
      obtain ⟨_, _, _, _, front⟩ := Cursor.stringAt?_cons_cons h
      obtain ⟨more, rfl⟩ :=
        (List.isPrefixOf_iff_prefix.1 (Bool.not_eq_false _ ▸ hprefix)).trans front
      simp [Cursor.isTriple] at ht
    rw [apart, apart, Bool.or_false]

/-- **The decoder counts the quotes that the lexer counted.** -/
theorem quoteLength_eq (hq : startsQuote rest = true) (h : Cursor.stringAt? rest = some string) :
    quoteLength string = if Cursor.isTriple rest then 3 else 1 := by
  obtain ⟨quote, inner, -, -, hstring⟩ := Cursor.stringAt?_quotes h
  rw [quoteLength, startsTriple_eq hq h]
  cases ht : Cursor.isTriple rest with
  | true =>
    rw [ht] at hstring
    have long : 6 ≤ string.length := by simp [hstring]
    simp [long]
  | false => simp

theorem unquoted_eq (h : quoteLength (quotes ++ (inner ++ quotes)) = quotes.length) :
    unquoted (quotes ++ (inner ++ quotes)) = inner := by
  have length : (quotes ++ (inner ++ quotes)).length - 2 * quotes.length = inner.length := by
    simp only [List.length_append]
    omega
  rw [unquoted, h, length, List.drop_left, List.take_left]

end

/-- The letters in front of a string hold no quote. -/
theorem isQuote_of_opensString {letters : List Char} (h : opensString letters = true) :
    ∀ c ∈ letters, isQuote c = false := by
  have plain : ∀ word ∈ stringPrefixes, '"' ∉ word ∧ '\'' ∉ word := by decide
  have lower := plain _ (List.contains_iff_mem.1 h)
  refine fun c hc => Bool.eq_false_iff.2 fun hquote => ?_
  have mem : c.toLower ∈ letters.map Char.toLower := List.mem_map_of_mem hc
  have quotes : c = '"' ∨ c = '\'' := by simpa [isQuote] using hquote
  rcases quotes with rfl | rfl
  · exact lower.1 mem
  · exact lower.2 mem

/-- The value of a string token whose letters and quotes are known. -/
theorem literal_eq {letters quotes : List Char} (inner : List Char) (hl : ∀ c ∈ letters, isQuote c = false)
    (hq : ∀ c ∈ quotes.head?, isQuote c = true) (hn : quotes ≠ [])
    (hc : quoteLength (quotes ++ (inner ++ quotes)) = quotes.length) :
    literal (letters ++ (quotes ++ (inner ++ quotes))) =
      if (letters.map Char.toLower).contains 'r' then
        .ok (inner, kindOf (letters.map Char.toLower))
      else (decode inner).map (·, kindOf (letters.map Char.toLower)) := by
  have front : (letters ++ (quotes ++ (inner ++ quotes))).takeWhile (! isQuote ·) = letters := by
    rw [Cursor.takeWhile_append_eq_iff, List.head?_append_of_ne_nil _ hn]
    exact ⟨by simpa using hl, by simpa using hq⟩
  have back : (letters ++ (quotes ++ (inner ++ quotes))).dropWhile (! isQuote ·) =
      quotes ++ (inner ++ quotes) := by
    have whole := @List.takeWhile_append_dropWhile _ (! isQuote ·)
      (letters ++ (quotes ++ (inner ++ quotes)))
    rw [front] at whole
    exact List.append_cancel_left whole
  have long : ¬ (quotes ++ (inner ++ quotes)).length < 2 * quotes.length := by
    simp only [List.length_append]
    omega
  simp only [literal, front, back, hc, if_neg long, unquoted_eq hc]

end Grammar

/-! ## The strings of a source -/

namespace Source

/-- The position at an offset of the text, whatever its line and column are. -/
def cursorAt (source : Source) (offset line col : Nat) : Cursor :=
  ⟨Text.dropBytes offset source.readChars, offset, line, col⟩

open Grammar in
/-- The lexer and the decoder read a string token the same way: `letters` stand before the `quotes`
that open it, and `inner` is between them and the quotes that close it. -/
structure Delimited (source : Source) (t : Token) (letters quotes inner : List Char) : Prop where
  text : t.text.toList = letters ++ (quotes ++ (inner ++ quotes))
  /-- The lexer counts the quotes after the letters, and with them it comes to the token's end. -/
  lexed (line col : Nat) :
    let first := source.cursorAt (t.span.start + Text.byteLength letters) line col
    quotes.length = (if Cursor.isTriple first.rest then 3 else 1) ∧
      first.readString.1 = true ∧ first.readString.2.offset = t.span.stop
  counted : quoteLength (quotes ++ (inner ++ quotes)) = quotes.length
  value : literal t.text.toList =
    if (letters.map Char.toLower).contains 'r' then .ok (inner, kindOf (letters.map Char.toLower))
    else (decode inner).map (·, kindOf (letters.map Char.toLower))
  valid : literal t.text.toList ≠ .error .invalidString
  /-- A decoder that measures in bytes counts the same quotes. -/
  countedBytes :
    (if 6 ≤ Text.byteLength (quotes ++ (inner ++ quotes))
        && (['"', '"', '"'].isPrefixOf (quotes ++ (inner ++ quotes))
          || ['\'', '\'', '\''].isPrefixOf (quotes ++ (inner ++ quotes))) then 3 else 1) =
      quotes.length
  /-- Cut at that many bytes from both ends, it finds the same inside between two characters. -/
  boundary : Text.Boundary t.text.toList (Text.byteLength letters) ∧
    Text.Boundary (quotes ++ (inner ++ quotes)) quotes.length ∧
    Text.Boundary (quotes ++ (inner ++ quotes))
      (Text.byteLength (quotes ++ (inner ++ quotes)) - quotes.length)
  slice : Text.slice (quotes ++ (inner ++ quotes)) quotes.length
    (Text.byteLength (quotes ++ (inner ++ quotes)) - quotes.length) = inner
  /-- A backslash at the end of the inside is not met. -/
  escapes (escape : List Char → Except SyntaxError.Cause Escape)
    (he : ∀ c cs, escape (c :: cs) = escapeAt (c :: cs)) : decodeWith escape 0 inner = decode inner

variable {source : Source} {t : Token}

theorem Holds.rest_cursorAt {cursor : Cursor} (h : source.Holds cursor) (line col : Nat) :
    (source.cursorAt cursor.offset line col).rest = cursor.rest := by
  obtain ⟨before, hchars, hoffset⟩ := h.place
  rw [cursorAt, hchars, hoffset, Text.dropBytes_append]

/-- A written token stands at a position of the text. -/
theorem Holds.written {lexer after : Lexer} {ts : List Token} (h : lexer.Gives ts after)
    (hs : lexer.Settled) (hq : lexer.Quiet) (hh : source.Holds lexer.cursor) :
    ∀ t ∈ ts, t.isLayout = false → ∃ cursor, source.Holds cursor ∧ t.span.start = cursor.offset ∧
      t.span.stop = t.span.start + Text.byteLength t.text.toList ∧
      tokenAt? cursor.rest = some (t.kind, t.text.toList) := by
  induction h with
  | nil => simp
  | @cons l t l' ts l'' hn _ ih =>
    have found := Lexer.next_eq_ok_iff.1 hn
    obtain ⟨stands, settled⟩ := found.stands hs
    obtain ⟨middle, hover, hpasses, hstart, hstop⟩ := stands.place
    refine List.forall_mem_cons.2 ⟨fun hw => ?_, ih settled (Lexer.next_fair hq hn).quiet
      ((hh.gap hover).1.passes hpasses)⟩
    obtain ⟨cursor, across, start, token⟩ := found.spelled hq hw
    exact ⟨cursor, (hh.gap across).1, start, by rw [hstop, hstart, hpasses.offset], token⟩

/-- The string at a position of the text, with letters before it that are part of its token. -/
theorem Holds.delimited {cursor : Cursor} {letters string : List Char} (h : source.Holds cursor)
    (hcursor : cursor.offset = t.span.start + Text.byteLength letters)
    (htext : t.text.toList = letters ++ string)
    (hstop : t.span.stop = t.span.start + Text.byteLength t.text.toList)
    (hletters : ∀ c ∈ letters, Grammar.isQuote c = false) (hq : startsQuote cursor.rest = true)
    (hstring : Cursor.stringAt? cursor.rest = some string) :
    ∃ quotes inner, source.Delimited t letters quotes inner := by
  have counted := Grammar.quoteLength_eq hq hstring
  have triple := Grammar.startsTriple_eq hq hstring
  obtain ⟨quote, inner, head, inside, heq⟩ := Cursor.stringAt?_quotes hstring
  have hquote : quote = '"' ∨ quote = '\'' := by simpa [startsQuote, head] using hq
  generalize hquotes : List.replicate (if Cursor.isTriple cursor.rest then 3 else 1) quote = quotes
    at heq
  have length : quotes.length = if Cursor.isTriple cursor.rest then 3 else 1 := by
    rw [← hquotes, List.length_replicate]
  have bytes : Text.byteLength quotes = quotes.length := by
    rw [← hquotes]
    rcases hquote with rfl | rfl <;> split <;> rfl
  have opening : ∀ c ∈ quotes.head?, Grammar.isQuote c = true := by
    rw [← hquotes]
    rcases hquote with rfl | rfl <;> split <;> simp [Grammar.isQuote]
  have nonempty : quotes ≠ [] := by
    rw [← List.length_pos_iff, length]
    split <;> decide
  have value := Grammar.literal_eq inner hletters opening nonempty (by rw [← heq, counted, length])
  have size : Text.byteLength (quotes ++ (inner ++ quotes)) - quotes.length =
      quotes.length + Text.byteLength inner := by
    simp only [Text.byteLength_append, bytes]
    omega
  subst heq
  refine ⟨quotes, inner, htext, fun line col => ?_, counted.trans length.symm, ?_, ?_, ?_,
    ⟨⟨letters, ?_, rfl⟩, ⟨quotes, List.prefix_append _ _, bytes⟩,
      ⟨quotes ++ inner, ?_, ?_⟩⟩, ?_, fun escape he => ?_⟩
  · rw [← hcursor]
    have rest := h.rest_cursorAt line col
    have found := Cursor.readString_yields (rest ▸ hq)
    rw [rest, hstring] at found
    refine ⟨by rw [rest, length], found.isSome, ?_⟩
    have offset : (source.cursorAt cursor.offset line col).offset = cursor.offset := rfl
    rw [found.offset _ rfl, hstop, htext, Text.byteLength_append letters, ← Nat.add_assoc, offset,
      hcursor]
  · rw [htext, value]
  · rw [htext, value]
    split
    · intro invalid
      cases invalid
    · intro invalid
      have cause := Grammar.decodeFrom_cause (Grammar.map_eq_error invalid)
      revert cause
      decide
  · rw [triple, length]
    cases ht : Cursor.isTriple cursor.rest with
    | true =>
      rw [ht] at length
      simp only [Text.byteLength_append, bytes, length]
      simp
      omega
    | false => simp
  · rw [htext]
    exact List.prefix_append _ _
  · rw [← List.append_assoc]
    exact List.prefix_append _ _
  · rw [size, Text.byteLength_append, bytes]
  · rw [size, ← bytes, ← List.append_assoc]
    exact Text.slice_append quotes inner quotes
  · exact Grammar.decodeWith_eq he inside

/-- **The lexer and the decoder agree on the quotes of a string.** The decoder counts the quotes of
a string token as the lexer did, so what it decodes is what is between them. It does not refuse
the token for its quotes, and does not come to a backslash with nothing behind it. -/
theorem string_delimiters_agree (source : Source) {ts : List Token} {after : Lexer}
    (h : (Lexer.start source).Gives ts after) (ht : t ∈ ts) (hk : t.kind = .string) :
    ∃ letters quotes inner, source.Delimited t letters quotes inner := by
  have layout : t.isLayout = false := by simp [Token.isLayout, hk]
  obtain ⟨first, held, hstart, hstop, token⟩ := Holds.written h (Lexer.settled_of_pending rfl)
    (Lexer.quiet_of_pending rfl) (.start source) t ht layout
  rw [hk] at token
  generalize htext : t.text.toList = text at token
  cases tokenAt?_cases token with
  | @string letters string front hletters hquote hstring =>
    have passes := Cursor.advance_passes (List.prefix_iff_eq_append.1 front).symm
    rw [← Cursor.rest_advance] at hquote hstring
    have plain : ∀ c ∈ letters, Grammar.isQuote c = false := by
      rcases hletters with rfl | hopens
      · simp
      · exact Grammar.isQuote_of_opensString hopens
    exact ⟨letters, (held.passes passes).delimited (by rw [passes.offset, hstart]) htext hstop plain
      hquote hstring⟩

/-- Strings with letters, with quotes and backslashes next to the quotes, and with long characters. -/
def quotesAtEnds : Source where
  file := "main.py"
  text := "x = Rb'\\'' + \"\" + '\\\\' + f\"\"\"\\\"é'\"\"\\\n\"\"\" ''''ü'''"

theorem quotesAtEnds_delimited : ∃ ts after, (Lexer.start quotesAtEnds).Gives ts after ∧
    (ts.filter (·.kind = .string)).map (·.text) = ["Rb'\\''", "\"\"", "'\\\\'",
      "f\"\"\"\\\"é'\"\"\\\n\"\"\"", "''''ü'''"] ∧
    ∀ t ∈ ts, t.kind = .string →
      ∃ letters quotes inner, quotesAtEnds.Delimited t letters quotes inner := by
  have found : ((Lexer.start quotesAtEnds).tokens? 20).map
      (fun ts => (ts.filter (·.kind = .string)).map (·.text)) = some ["Rb'\\''", "\"\"", "'\\\\'",
        "f\"\"\"\\\"é'\"\"\\\n\"\"\"", "''''ü'''"] := by decide +kernel
  obtain ⟨ts, hts, texts⟩ := Option.map_eq_some_iff.1 found
  obtain ⟨-, after, gives⟩ := Lexer.gives_of_tokens hts
  exact ⟨ts, after, gives, texts, fun t => string_delimiters_agree quotesAtEnds gives⟩

end Source

end SdkUsage
