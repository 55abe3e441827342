/-
Carriage returns before line feeds. A text whose line feeds are written with a carriage
return before each is cut into the same tokens, on the same lines, with one exception: a line
feed that is escaped in a string without triple quotes. There the backslash is taken for the
carriage return alone, and the line feed behind it ends the string unclosed.

Here are the facts about the texts: where blanks end, and which token is at the front
(`tokenAt?_withReturns`).
-/
import SdkUsage.Proofs.Token.Stream

namespace SdkUsage

/-- A text with a carriage return before every line feed. -/
def withReturns : List Char → List Char
  | [] => []
  | c :: cs => if c = '\n' then '\r' :: '\n' :: withReturns cs else c :: withReturns cs

@[simp] theorem withReturns_nil : withReturns [] = [] := rfl

@[simp] theorem withReturns_line (cs : List Char) :
    withReturns ('\n' :: cs) = '\r' :: '\n' :: withReturns cs := rfl

@[simp] theorem withReturns_cons {c : Char} (hc : c ≠ '\n') (cs : List Char) :
    withReturns (c :: cs) = c :: withReturns cs := if_neg hc

theorem withReturns_append (as bs : List Char) :
    withReturns (as ++ bs) = withReturns as ++ withReturns bs := by
  induction as with
  | nil => rfl
  | cons a as ih => by_cases ha : a = '\n' <;> simp [ha, ih]

/-- A text of one line is left as it is. -/
theorem withReturns_eq_self {text : List Char} (h : '\n' ∉ text) : withReturns text = text := by
  induction text with
  | nil => rfl
  | cons c cs ih =>
    simp only [List.mem_cons, not_or] at h
    rw [withReturns_cons (Ne.symm h.1), ih h.2]

/-- The other text from a character on, when a carriage return before it was passed. -/
def returnsBehind : List Char → List Char
  | [] => []
  | c :: cs => c :: withReturns cs

theorem count_withReturns (text : List Char) : (withReturns text).count '\n' = text.count '\n' := by
  induction text with
  | nil => rfl
  | cons c cs ih => by_cases hc : c = '\n' <;> simp [hc, ih]

/-- What comes first is the same, or a line ends there. -/
theorem head?_withReturns (text : List Char) (p : Char → Bool) (hline : p '\n' = false)
    (hreturn : p '\r' = false) : (withReturns text).head?.any p = text.head?.any p := by
  cases text with
  | nil => rfl
  | cons c cs => by_cases hc : c = '\n' <;> simp [hc, hline, hreturn]

theorem takeWhile_withReturns (text : List Char) {p : Char → Bool} (hp : p '\r' = p '\n') :
    (withReturns text).takeWhile p = withReturns (text.takeWhile p) := by
  induction text with
  | nil => rfl
  | cons c cs ih =>
    by_cases hc : c = '\n'
    · subst hc
      cases hline : p '\n' <;> simp [hp, hline, ih]
    · by_cases hpc : p c = true <;> simp [hc, hpc, ih]

/-! ## Positions -/

namespace Cursor

/-- Positions in the two texts, on the same line. -/
structure Twin (a b : Cursor) : Prop where
  rest : b.rest = withReturns a.rest
  line : b.line = a.line

/-- Positions in the two texts before the same character. -/
structure Beside (a b : Cursor) : Prop where
  rest : b.rest = returnsBehind a.rest
  line : b.line = a.line

/-- The indentation of a line is the same in both texts. -/
theorem indentation_twin (width : Nat) (comment : Bool) (rest : List Char)
    (offset line col offset' col' : Nat) :
    (indentation width comment (withReturns rest) offset' line col').1
        = (indentation width comment rest offset line col).1 ∧
      (indentation width comment rest offset line col).2.Twin
        (indentation width comment (withReturns rest) offset' line col').2 := by
  fun_induction indentation width comment rest offset line col generalizing offset' col' with
  | case1 => exact ⟨rfl, rfl, rfl⟩
  | case2 width comment offset line col cs ih =>
    rw [withReturns_line, indentation]
    cases comment with
    | true => simpa [indentation] using ih _ _
    | false => simpa [indentation] using ih _ _
  | case3 width offset line col c cs hc ih =>
    rw [withReturns_cons hc, indentation, if_neg hc, if_pos rfl]
    exact ih _ _
  | case4 | case5 | case6 | case7 | case8 =>
    rw [withReturns_cons (by decide), indentation]
    simp_all
  | case9 width comment offset line col c cs hc =>
    rw [withReturns_cons hc, indentation]
    simp_all
    exact ⟨by simp [hc], rfl⟩

section

variable (joined comment : Bool) (cs : List Char) (offset line col : Nat)

theorem blanks_line : blanks joined comment ('\n' :: cs) offset line col =
    if joined then blanks joined false cs (offset + 1) (line + 1) 1
    else (true, ⟨'\n' :: cs, offset, line, col⟩) := by
  rw [blanks.eq_def]
  rfl

/-- A carriage return is passed. -/
theorem blanks_return : ∃ offset' col', blanks joined comment ('\r' :: cs) offset line col =
    blanks joined comment cs offset' line col' := by
  rw [blanks.eq_def]
  cases comment with
  | true => exact ⟨_, _, rfl⟩
  | false => exact ⟨_, _, rfl⟩

end

/-- Blanks end at the same place, a carriage return apart. -/
theorem blanks_twin (joined comment : Bool) {rest : List Char} (hr : '\r' ∉ rest)
    (offset line col offset' col' : Nat) :
    (blanks joined comment (withReturns rest) offset' line col').1
        = (blanks joined comment rest offset line col).1 ∧
      (blanks joined comment rest offset line col).2.Beside
        (blanks joined comment (withReturns rest) offset' line col').2 := by
  fun_induction blanks joined comment rest offset line col generalizing offset' col' with
  | case1 => exact ⟨rfl, rfl, rfl⟩
  | case2 comment offset line col cs hjoined ih =>
    rw [List.mem_cons, not_or] at hr
    obtain ⟨offset', col', passed⟩ :=
      blanks_return joined comment ('\n' :: withReturns cs) offset' line col'
    rw [withReturns_line, passed, blanks_line, if_pos hjoined]
    exact ih hr.2 _ _
  | case3 comment offset line col cs hplain =>
    obtain ⟨offset', col', passed⟩ :=
      blanks_return joined comment ('\n' :: withReturns cs) offset' line col'
    rw [withReturns_line, passed, blanks_line, if_neg hplain]
    exact ⟨rfl, rfl, rfl⟩
  | case4 offset line col c cs hc ih =>
    rw [List.mem_cons, not_or] at hr
    rw [withReturns_cons hc, blanks.eq_def]
    simpa only [if_neg hc, if_true] using ih hr.2 _ _
  | case5 comment offset line col c cs hline hcomment hc ih =>
    rw [List.mem_cons, not_or] at hr
    rw [withReturns_cons hline, blanks.eq_def]
    simpa only [if_neg hline, if_neg hcomment, if_pos hc] using ih hr.2 _ _
  | case6 comment offset line col cs hcomment hline hblank ih =>
    rw [List.mem_cons, not_or] at hr
    rw [withReturns_cons hline, blanks.eq_def]
    simpa only [if_neg hline, if_neg hcomment, if_neg hblank, if_true] using ih hr.2 _ _
  | case7 => exact absurd List.mem_cons_self hr
  | case8 comment offset line col cs hcomment hline hblank htab hreturn ih =>
    rw [List.mem_cons, not_or] at hr
    rw [withReturns_cons hline, blanks.eq_def]
    simpa only [if_neg hline, if_neg hcomment, if_neg hblank, if_neg htab, if_neg hreturn, if_true]
      using ih hr.2 _ _
  | case9 comment offset line col hcomment cs hline hblank htab hreturn hhash ih =>
    simp only [List.mem_cons, not_or] at hr
    rw [withReturns_cons hline, withReturns_line, blanks.eq_def]
    simpa only [if_neg hline, if_neg hcomment, if_neg hblank, if_neg htab, if_neg hreturn,
      if_neg hhash, if_true] using ih hr.2.2 _ _
  | case10 => simp at hr
  | case11 comment offset line col cs hcomment hend hend' hline hblank htab hreturn hhash =>
    have same : ∀ ds, withReturns cs ≠ '\n' :: ds ∧ withReturns cs ≠ '\r' :: '\n' :: ds := by
      rcases cs with _ | ⟨d, cs⟩
      · simp
      · have hd : d ≠ '\n' := by
          rintro rfl
          exact hend cs rfl
        have hd' : d ≠ '\r' := by
          rintro rfl
          simp at hr
        simp [withReturns_cons hd, hd, hd']
    rw [withReturns_cons hline, blanks.eq_def]
    simp only [if_neg hline, if_neg hcomment, if_neg hblank, if_neg htab, if_neg hreturn,
      if_neg hhash, if_true]
    split
    · next ds heq => exact absurd heq (same ds).1
    · next ds heq => exact absurd heq (same ds).2
    · exact ⟨rfl, rfl, rfl⟩
  | case12 comment offset line col c cs hline hcomment hblank htab hreturn hhash hback =>
    rw [withReturns_cons hline, blanks.eq_def]
    simp only [if_neg hline, if_neg hcomment, if_neg hblank, if_neg htab, if_neg hreturn,
      if_neg hhash, if_neg hback]
    exact ⟨trivial, rfl, rfl⟩

/-! ## Strings -/

/-- A string, or its inside, in the other text: it is lost if it has a line feed that needs
triple quotes. -/
def kept (triple : Bool) (text : List Char) : Option (List Char) :=
  if triple = false ∧ '\n' ∈ text then none else some (withReturns text)

theorem kept_cons (triple : Bool) {c : Char} (hc : c ≠ '\n') (text : List Char) :
    kept triple (c :: text) = (kept triple text).map (c :: ·) := by
  by_cases ht : triple = false ∧ '\n' ∈ text <;> simp [kept, hc, Ne.symm hc, ht]

theorem kept_of_not_mem (triple : Bool) {text : List Char} (h : '\n' ∉ text) :
    kept triple text = some text := by
  simp [kept, h, withReturns_eq_self h]

theorem isPrefixOf_pair_withReturns {quote : Char} (hq : quote ≠ '\n') (hq' : quote ≠ '\r')
    (text : List Char) :
    [quote, quote].isPrefixOf (withReturns text) = [quote, quote].isPrefixOf text := by
  have line : (quote == '\n') = false ∧ (quote == '\r') = false := by simp [hq, hq']
  rcases text with _ | ⟨a, _ | ⟨b, text⟩⟩
  · rfl
  · by_cases ha : a = '\n' <;> simp [ha, line, List.isPrefixOf]
  · by_cases ha : a = '\n' <;> by_cases hb : b = '\n' <;>
      simp [ha, hb, line, List.isPrefixOf]

/-- The inside of a string is found in the other text too, unless it has a line feed that
needs triple quotes. -/
theorem bodyAt?_withReturns {quote : Char} (hq : quote ≠ '\n') (hq' : quote ≠ '\r')
    (triple escaped : Bool) (text : List Char) :
    bodyAt? quote triple escaped (withReturns text) =
      (bodyAt? quote triple escaped text).bind (kept triple) := by
  have later {c : Char} (hc : c ≠ '\n') {cs : List Char} {escaped : Bool}
      (ih : bodyAt? quote triple escaped (withReturns cs) =
        (bodyAt? quote triple escaped cs).bind (kept triple)) :
      (bodyAt? quote triple escaped (withReturns cs)).map (c :: ·) =
        ((bodyAt? quote triple escaped cs).map (c :: ·)).bind (kept triple) := by
    rw [ih]
    cases bodyAt? quote triple escaped cs with
    | none => rfl
    | some body => exact (kept_cons triple hc body).symm
  fun_induction bodyAt? quote triple escaped text with
  | case1 => rfl
  | case2 c cs ih =>
    by_cases hc : c = '\n'
    · subst hc
      -- The backslash is taken for the carriage return.
      cases triple with
      | true =>
        simp only [withReturns_line, bodyAt?, ih]
        cases bodyAt? quote true false cs <;> simp [Ne.symm hq, kept]
      | false =>
        simp only [withReturns_line, bodyAt?]
        cases bodyAt? quote false false cs <;> simp [kept]
    · rw [withReturns_cons hc, bodyAt?, if_pos rfl]
      exact later hc ih
  | case3 escaped cs hescaped ih =>
    rw [withReturns_cons (by decide), bodyAt?, if_neg hescaped, if_pos rfl]
    exact later (by decide) ih
  | case4 escaped c cs hescaped hback hline =>
    obtain ⟨rfl, rfl⟩ := hline
    simp [bodyAt?, hescaped, Ne.symm hq']
  | case5 escaped c cs hescaped hback hline hquote =>
    obtain ⟨rfl, rfl⟩ := hquote
    rw [withReturns_cons hq, bodyAt?, if_neg hescaped, if_neg hback, if_neg hline,
      if_pos ⟨rfl, rfl⟩]
    exact (kept_of_not_mem false (by simpa using Ne.symm hq)).symm
  | case6 escaped c cs hescaped hback hline hplain hclose =>
    obtain ⟨rfl, hclose⟩ := hclose
    rw [withReturns_cons hq, bodyAt?, if_neg hescaped, if_neg hback, if_neg hline, if_neg hplain,
      isPrefixOf_pair_withReturns hq hq', if_pos ⟨rfl, hclose⟩]
    exact (kept_of_not_mem triple (by simpa using Ne.symm hq)).symm
  | case7 escaped c cs hescaped hback hline hplain hclose ih =>
    by_cases hc : c = '\n'
    · subst hc
      have htriple : triple = true := by simpa using hline
      subst htriple
      simp only [withReturns_line, bodyAt?, ih]
      cases bodyAt? quote true false cs <;> simp [hescaped, Ne.symm hq, Ne.symm hq', kept]
    · rw [withReturns_cons hc, bodyAt?, if_neg hescaped, if_neg hback, if_neg hline, if_neg hplain,
        isPrefixOf_pair_withReturns hq hq', if_neg hclose]
      exact later hc ih

theorem isTriple_withReturns {c : Char} (hc : c ≠ '\n') (hc' : c ≠ '\r') (cs : List Char) :
    isTriple (c :: withReturns cs) = isTriple (c :: cs) := by
  rcases cs with _ | ⟨a, _ | ⟨b, cs⟩⟩
  · rfl
  · by_cases ha : a = '\n' <;> simp [ha, hc', isTriple]
  · by_cases ha : a = '\n' <;> by_cases hb : b = '\n' <;> simp [ha, hb, hc, hc', isTriple]

/-- Whether a string has triple quotes can be told from the string alone. -/
theorem isTriple_of_stringAt? {text string : List Char} (h : stringAt? text = some string) :
    isTriple string = isTriple text := by
  obtain ⟨a, b, cs, rfl, after, rfl⟩ := stringAt?_cons_cons h
  rcases cs with _ | ⟨c, cs⟩
  · -- A string of two quotes is followed by no third one.
    simp only [List.cons_append, List.nil_append, stringAt?] at h
    split at h
    · obtain ⟨body, _, heq⟩ := Option.map_eq_some_iff.1 h
      simp at heq
    · next ht => exact ((Bool.not_eq_true _).mp ht).symm
  · rfl

/-- A string is found in the other text too, unless it has a line feed that needs triple
quotes. -/
theorem stringAt?_withReturns {text : List Char} (hq : startsQuote text = true) :
    stringAt? (withReturns text) =
      (stringAt? text).bind fun string => kept (isTriple string) string := by
  rcases text with _ | ⟨c, cs⟩
  · rfl
  · obtain ⟨hc, hc'⟩ : c ≠ '\n' ∧ c ≠ '\r' := by
      rcases quote_of_startsQuote hq with rfl | rfl <;> decide
    by_cases ht : isTriple (c :: cs) = true
    · rcases cs with _ | ⟨d, _ | ⟨e, cs⟩⟩
      · cases ht
      · cases ht
      · have quotes : c = d ∧ c = e := by simpa [isTriple] using ht
        obtain ⟨rfl, rfl⟩ := quotes
        simp only [withReturns_cons hc, stringAt?, ht, if_true, List.drop_succ_cons, List.drop_zero,
          bodyAt?_withReturns hc hc']
        cases bodyAt? c true false cs <;> simp [kept, isTriple, hc]
    · have ht' : ¬ isTriple (c :: withReturns cs) = true := by rwa [isTriple_withReturns hc hc']
      have same (string : List Char) (hs : stringAt? (c :: cs) = some string) :
          isTriple string = false := by
        rw [isTriple_of_stringAt? hs]
        simpa using ht
      simp only [withReturns_cons hc, stringAt?, if_neg ht, if_neg ht',
        bodyAt?_withReturns hc hc'] at same ⊢
      cases hbody : bodyAt? c false false cs with
      | none => rfl
      | some body =>
        have plain := same (c :: body) (by rw [hbody]; rfl)
        simp only [Option.map_some, Option.bind_some, plain, kept_cons false hc]

end Cursor

/-! ## Tokens -/

/-- A string without the letters before its opening quote. -/
def fromQuote (text : List Char) : List Char := text.dropWhile fun c => c ≠ '"' ∧ c ≠ '\''

/-- A string of more than one line without triple quotes. -/
def breaksLine (kind : TokenKind) (text : List Char) : Bool :=
  kind = .string && text.contains '\n' && !Cursor.isTriple (fromQuote text)

/-- A token in the other text, if there is one. -/
def keptToken (token : TokenKind × List Char) : Option (TokenKind × List Char) :=
  if breaksLine token.1 token.2 then none else some (token.1, withReturns token.2)

theorem startsQuote_withReturns (text : List Char) :
    startsQuote (withReturns text) = startsQuote text := by
  cases text with
  | nil => rfl
  | cons c cs => by_cases hc : c = '\n' <;> simp [hc, startsQuote]

theorem startsNumber_withReturns (text : List Char) :
    startsNumber (withReturns text) = startsNumber text := by
  rcases text with _ | ⟨c, _ | ⟨d, cs⟩⟩
  · rfl
  · by_cases hc : c = '\n' <;> simp [hc, startsNumber]
  · by_cases hc : c = '\n' <;> by_cases hd : d = '\n' <;> simp [hc, hd, startsNumber]

theorem numberRun_withReturns (hexadecimal : Bool) (previous : Char) (text : List Char) :
    Cursor.numberRun hexadecimal previous (withReturns text) =
      Cursor.numberRun hexadecimal previous text := by
  induction text generalizing previous with
  | nil => rfl
  | cons c cs ih =>
    by_cases hc : c = '\n'
    · subst hc
      simp [Cursor.numberRun_cons, Cursor.numberGoesOn, Cursor.isNumberChar]
    · rw [withReturns_cons hc, Cursor.numberRun_cons, Cursor.numberRun_cons, ih]

theorem numberAt_withReturns (text : List Char) :
    Cursor.numberAt (withReturns text) = Cursor.numberAt text := by
  have hexadecimal : Cursor.isHexadecimal (withReturns text) = Cursor.isHexadecimal text := by
    rcases text with _ | ⟨c, _ | ⟨d, cs⟩⟩
    · rfl
    · by_cases hc : c = '\n' <;> simp [hc, Cursor.isHexadecimal]
    · by_cases hc : c = '\n' <;> by_cases hd : d = '\n' <;>
        simp [hc, hd, Cursor.isHexadecimal_cons_cons]
  rw [Cursor.numberAt, Cursor.numberAt, hexadecimal, numberRun_withReturns]

theorem symbolAt?_withReturns (text : List Char) :
    symbolAt? (withReturns text) = symbolAt? text := by
  by_cases h : '\n' ∈ text
  · obtain ⟨front, back, rfl, hfront⟩ := List.eq_append_cons_of_mem h
    rw [withReturns_append, withReturns_eq_self hfront, withReturns_line,
      symbolAt?_append_cons _ _ (gapStarts_symbol (by decide)),
      symbolAt?_append_cons _ _ (gapStarts_symbol (by decide))]
  · rw [withReturns_eq_self h]

theorem keptToken_of_not_mem {kind : TokenKind} {text : List Char} (h : '\n' ∉ text) :
    keptToken (kind, text) = some (kind, text) := by
  simp [keptToken, breaksLine, h, withReturns_eq_self h]

/-- Letters before the quotes of a string are no part of the question. -/
theorem keptToken_string {word string : List Char} (hw : ∀ c ∈ word, Cursor.isWordChar c = true)
    (hs : startsQuote string = true) :
    keptToken (.string, word ++ string) =
      (Cursor.kept (Cursor.isTriple string) string).map fun string => (.string, word ++ string) := by
  have line : '\n' ∉ word := fun h => absurd (hw _ h) (by decide)
  have quotes : fromQuote (word ++ string) = string := by
    have letters : ∀ c ∈ word, decide (c ≠ '"' ∧ c ≠ '\'') = true := by
      intro c hc
      rw [decide_eq_true_eq]
      constructor
      · rintro rfl
        exact absurd (hw _ hc) (by decide)
      · rintro rfl
        exact absurd (hw _ hc) (by decide)
    rw [fromQuote, List.dropWhile_append_of_pos letters]
    cases string with
    | nil => rfl
    | cons c cs => rcases Cursor.quote_of_startsQuote hs with rfl | rfl <;> rfl
  cases ht : Cursor.isTriple string <;> by_cases hb : '\n' ∈ string <;>
    simp [keptToken, breaksLine, Cursor.kept, quotes, line, ht, hb, withReturns_append,
      withReturns_eq_self line]

theorem not_mem_numberRun (hexadecimal : Bool) (previous : Char) (text : List Char) :
    '\n' ∉ Cursor.numberRun hexadecimal previous text := fun h =>
  absurd (Cursor.mem_numberRun h) (by decide)

theorem not_mem_wordAt (text : List Char) : '\n' ∉ Cursor.wordAt text := fun h =>
  absurd (List.all_eq_true.1 List.all_takeWhile _ h) (by decide)

theorem not_mem_symbolAt? {text symbol : List Char} (h : symbolAt? text = some symbol) :
    '\n' ∉ symbol :=
  gapStarts_symbol (by decide) symbol (List.mem_of_find?_eq_some h)

/-- Only a string has line feeds in it. -/
theorem not_mem_of_tokenAt? {text token : List Char} {kind : TokenKind}
    (h : tokenAt? text = some (kind, token)) (hk : kind ≠ .string) : '\n' ∉ token :=
  notMem_of_tokenAt? (by decide) (by decide) (by decide) h hk

/-- **The token at the front of the other text** is the same, unless it is a string of more
than one line without triple quotes: then there is none. -/
theorem tokenAt?_withReturns (text : List Char) :
    tokenAt? (withReturns text) = (tokenAt? text).bind keptToken := by
  unfold tokenAt?
  rw [startsQuote_withReturns, startsNumber_withReturns, numberAt_withReturns,
    symbolAt?_withReturns, head?_withReturns text _ (by decide) (by decide)]
  split
  · next hq =>
    rw [Cursor.stringAt?_withReturns hq]
    cases hstring : Cursor.stringAt? text with
    | none => rfl
    | some string =>
      obtain ⟨a, b, cs, rfl, after, rfl⟩ := Cursor.stringAt?_cons_cons hstring
      exact (@keptToken_string [] (a :: b :: cs) (by simp) hq).symm
  split
  · split
    · exact (keptToken_of_not_mem (not_mem_numberRun _ _ _)).symm
    · rfl
  split
  · have letters : ∀ c ∈ Cursor.wordAt text, Cursor.isWordChar c = true :=
      List.all_eq_true.1 List.all_takeWhile
    have line := not_mem_wordAt text
    have word : Cursor.wordAt (withReturns text) = Cursor.wordAt text := by
      rw [Cursor.wordAt, takeWhile_withReturns text (by decide)]
      exact withReturns_eq_self line
    have after : (withReturns text).drop (Cursor.wordAt text).length =
        withReturns (text.drop (Cursor.wordAt text).length) := by
      obtain ⟨after, hafter⟩ := List.takeWhile_prefix Cursor.isWordChar (l := text)
      have front : Cursor.wordAt text ++ after = text := hafter
      generalize Cursor.wordAt text = word at front line
      rw [← front, withReturns_append, withReturns_eq_self line, List.drop_left, List.drop_left]
    rw [word, after, wordTokenAt?, wordTokenAt?, startsQuote_withReturns]
    split
    · next hopen =>
      have hq := (Bool.and_eq_true_iff.1 hopen).1
      rw [Cursor.stringAt?_withReturns hq]
      cases hstring : Cursor.stringAt? (text.drop (Cursor.wordAt text).length) with
      | none => rfl
      | some string =>
        obtain ⟨a, b, cs, rfl, rest, hrest⟩ := Cursor.stringAt?_cons_cons hstring
        rw [← hrest] at hq
        exact (@keptToken_string _ (a :: b :: cs) letters hq).symm
    · exact (keptToken_of_not_mem line).symm
  · cases hsymbol : symbolAt? text with
    | none => rfl
    | some symbol => exact (keptToken_of_not_mem (not_mem_symbolAt? hsymbol)).symm

end SdkUsage
