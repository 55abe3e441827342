/-
The token at the front of a text, as a function of the text alone: `tokenAt?`
gives its kind and its characters.

A token at the front of a text depends little on what comes after it. It is
still there when a blank comes instead, and when the text goes on after a
line feed (`tokenAt?_replaces`).
-/
import Mathlib.Data.List.Basic
import Mathlib.Data.List.Find
import SdkUsage.Token.Lexer

namespace SdkUsage

variable {after' number token : List Char} {hexadecimal : Bool} {kind : TokenKind}

namespace Cursor

/-! ## Strings -/

/-- The inside of a string at the front of a text, with its closing quotes;
nothing where it is not closed. After a backslash a character is `escaped`. -/
def bodyAt? (quote : Char) (triple escaped : Bool) : List Char → Option (List Char)
  | [] => none
  | c :: cs =>
    if escaped then (bodyAt? quote triple false cs).map (c :: ·)
    else if c = '\\' then (bodyAt? quote triple true cs).map (c :: ·)
    else if c = '\n' ∧ triple = false then none
    else if c = quote ∧ triple = false then some [c]
    else if c = quote ∧ [quote, quote].isPrefixOf cs then some [c, quote, quote]
    else (bodyAt? quote triple false cs).map (c :: ·)

/-- The string at the front of a text, from its opening quote on. -/
def stringAt? : List Char → Option (List Char)
  | [] => none
  | c :: cs =>
    if isTriple (c :: cs) then (bodyAt? c true false (cs.drop 2)).map ([c, c, c] ++ ·)
    else (bodyAt? c false false cs).map (c :: ·)

section

variable {quote : Char} {triple escaped : Bool} {text body : List Char}

/-- A string ends with its closing quotes. -/
theorem bodyAt?_closes (h : bodyAt? quote triple escaped text = some body) :
    ∃ inner, body = inner ++ List.replicate (if triple then 3 else 1) quote := by
  fun_induction bodyAt? quote triple escaped text generalizing body with
  | case1 | case4 => cases h
  | case5 escaped c cs _ _ _ hquote =>
    cases h
    exact ⟨[], by rw [hquote.1, hquote.2]; rfl⟩
  | case6 escaped c cs _ _ _ hplain hclose =>
    cases h
    have htriple : triple = true := by simpa [hclose.1] using hplain
    exact ⟨[], by rw [hclose.1, htriple]; rfl⟩
  | case2 | case3 | case7 =>
    rename_i ih
    obtain ⟨rest, hrest, rfl⟩ := Option.map_eq_some_iff.1 h
    obtain ⟨inner, rfl⟩ := ih hrest
    exact ⟨_ :: inner, rfl⟩

theorem bodyAt?_length (h : bodyAt? quote triple escaped text = some body) :
    (if triple then 3 else 1) ≤ body.length := by
  obtain ⟨inner, rfl⟩ := bodyAt?_closes h
  simp

/-- Whether two characters stand at the front of a text depends on its first two only. -/
theorem isPrefixOf_pair_append {a b : Char} {cs ds es : List Char} (h : cs <+: ds)
    (hl : 2 ≤ cs.length) : [a, b].isPrefixOf (cs ++ es) = [a, b].isPrefixOf ds := by
  obtain ⟨rest, rfl⟩ := h
  rcases cs with _ | ⟨c, _ | ⟨d, cs⟩⟩
  · simp at hl
  · simp at hl
  · simp [List.isPrefixOf]

/-- The inside of a string is found whatever comes after its closing quotes. -/
theorem bodyAt?_front (h : bodyAt? quote triple escaped text = some body) :
    body <+: text ∧ ∀ after, bodyAt? quote triple escaped (body ++ after) = some body := by
  fun_induction bodyAt? quote triple escaped text generalizing body with
  | case1 | case4 => cases h
  | case2 c cs ih =>
    obtain ⟨inner, hinner, rfl⟩ := Option.map_eq_some_iff.1 h
    obtain ⟨front, same⟩ := ih hinner
    exact ⟨List.cons_prefix_cons.2 ⟨rfl, front⟩, fun after => by simp [bodyAt?, same]⟩
  | case3 escaped cs hescaped ih =>
    obtain ⟨inner, hinner, rfl⟩ := Option.map_eq_some_iff.1 h
    obtain ⟨front, same⟩ := ih hinner
    exact ⟨List.cons_prefix_cons.2 ⟨rfl, front⟩, fun after => by simp [bodyAt?, hescaped, same]⟩
  | case5 escaped c cs hescaped hback hline hquote =>
    cases h
    refine ⟨by simp, fun after => ?_⟩
    simp only [List.cons_append, bodyAt?, if_neg hescaped, if_neg hback, if_neg hline, if_pos hquote]
  | case6 escaped c cs hescaped hback hline hplain hclose =>
    cases h
    refine ⟨List.cons_prefix_cons.2 ⟨rfl, List.isPrefixOf_iff_prefix.1 hclose.2⟩, fun after => ?_⟩
    have closes : c = quote ∧ [quote, quote].isPrefixOf (quote :: quote :: after) = true :=
      ⟨hclose.1, by simp [List.isPrefixOf]⟩
    simp only [List.cons_append, List.nil_append, bodyAt?, if_neg hescaped, if_neg hback,
      if_neg hline, if_neg hplain, if_pos closes]
  | case7 escaped c cs hescaped hback hline hplain hclose ih =>
    obtain ⟨inner, hinner, rfl⟩ := Option.map_eq_some_iff.1 h
    obtain ⟨front, same⟩ := ih hinner
    refine ⟨List.cons_prefix_cons.2 ⟨rfl, front⟩, fun after => ?_⟩
    have still_open : ¬ (c = quote ∧ [quote, quote].isPrefixOf (inner ++ after) = true) := by
      rintro ⟨hc, hpair⟩
      have htriple : triple = true := by simpa [hc] using hplain
      have long := bodyAt?_length hinner
      rw [htriple] at long
      rw [isPrefixOf_pair_append front (by simp at long; omega)] at hpair
      exact hclose ⟨hc, hpair⟩
    simp only [List.cons_append, bodyAt?, if_neg hescaped, if_neg hback, if_neg hline, if_neg hplain,
      if_neg still_open, same, Option.map_some]

end

/-- Whether a text has three quotes in front depends on its first three characters only. -/
theorem isTriple_append {text after : List Char} (h : 3 ≤ text.length) :
    isTriple (text ++ after) = isTriple text := by
  rcases text with _ | ⟨a, _ | ⟨b, _ | ⟨c, text⟩⟩⟩
  · simp at h
  · simp at h
  · simp at h
  · rfl

theorem stringAt?_cons_cons {text string : List Char} (h : stringAt? text = some string) :
    ∃ a b cs, string = a :: b :: cs ∧ string <+: text := by
  cases text with
  | nil => cases h
  | cons c cs =>
    rw [stringAt?] at h
    split at h
    · next ht =>
      obtain ⟨body, hbody, rfl⟩ := Option.map_eq_some_iff.1 h
      obtain ⟨front, -⟩ := bodyAt?_front hbody
      rcases cs with _ | ⟨d, _ | ⟨e, cs⟩⟩
      · cases ht
      · cases ht
      · simp only [isTriple, Bool.and_eq_true, decide_eq_true_eq] at ht
        obtain ⟨rfl, rfl⟩ := ht
        exact ⟨c, c, c :: body, rfl, by simpa using front⟩
    · obtain ⟨body, hbody, rfl⟩ := Option.map_eq_some_iff.1 h
      obtain ⟨front, -⟩ := bodyAt?_front hbody
      have long := bodyAt?_length hbody
      rcases body with _ | ⟨d, body⟩
      · simp at long
      · exact ⟨c, d, body, rfl, List.cons_prefix_cons.2 ⟨rfl, front⟩⟩

/-- A string is found whatever comes after it, if that does not make its quotes triple. -/
theorem stringAt?_front {string after : List Char} (h : stringAt? (string ++ after) = some string)
    (ht : isTriple (string ++ after') = isTriple (string ++ after)) :
    stringAt? (string ++ after') = some string := by
  obtain ⟨a, b, cs, rfl, -⟩ := stringAt?_cons_cons h
  simp only [List.cons_append, stringAt?] at h ht ⊢
  rw [ht]
  split at h
  · next htriple =>
    rw [if_pos htriple]
    obtain ⟨body, hbody, heq⟩ := Option.map_eq_some_iff.1 h
    simp only [List.nil_append, List.cons.injEq, true_and] at heq
    obtain ⟨rfl, rfl⟩ := heq
    have same := (bodyAt?_front hbody).2 after'
    simp only [List.cons_append, List.drop_succ_cons, List.drop_zero, same, Option.map_some]
    rfl
  · next htriple =>
    rw [if_neg htriple]
    obtain ⟨body, hbody, heq⟩ := Option.map_eq_some_iff.1 h
    simp only [List.cons.injEq, true_and] at heq
    subst heq
    have same := (bodyAt?_front hbody).2 after'
    simp only [List.cons_append] at same
    simp only [same, Option.map_some]

/-! ## What comes after a token -/

/-- A text can come after a token instead of another: it starts with a blank, or it is the
other, which has a line feed, with more behind it. -/
inductive Replaces : List Char → List Char → Prop
  | blank {after c cs} : c = ' ' ∨ c = '\n' → Replaces after (c :: cs)
  | append {after} (more : List Char) : '\n' ∈ after → Replaces after (after ++ more)

namespace Replaces

variable {after after' : List Char}

/-- It starts with a blank, or as the other. -/
theorem head (h : Replaces after after') {c : Char} (hc : c ∈ after'.head?) :
    c = ' ' ∨ c = '\n' ∨ c ∈ after.head? := by
  cases h with
  | blank hb =>
    cases hc
    tauto
  | append more hline =>
    cases after with
    | nil => cases hline
    | cons d ds => exact .inr (.inr hc)

/-- What blanks do not satisfy, and the other does not start with, it does not start with. -/
theorem head_false (h : Replaces after after') {p : Char → Bool} (hspace : p ' ' = false)
    (hline : p '\n' = false) (hp : ∀ c ∈ after.head?, p c = false) :
    ∀ c ∈ after'.head?, p c = false := by
  intro c hc
  rcases h.head hc with rfl | rfl | hc
  · exact hspace
  · exact hline
  · exact hp c hc

end Replaces

/-! ## Words and numbers -/

theorem takeWhile_append_eq_iff {p : Char → Bool} {word after : List Char} :
    (word ++ after).takeWhile p = word ↔
      (∀ c ∈ word, p c = true) ∧ ∀ c ∈ after.head?, p c = false := by
  induction word with
  | nil =>
    cases after with
    | nil => simp
    | cons c cs => by_cases hc : p c = true <;> simp [hc]
  | cons c word ih =>
    by_cases hc : p c = true
    · simp [hc, ih]
    · simp [hc]

/-- Characters that continue a number, the signs apart. -/
def isNumberChar (c : Char) : Bool := c.isAlphanum || c = '_' || c = '.'

/-- Whether a number goes on with a character. -/
def numberGoesOn (hexadecimal : Bool) (previous c : Char) : Bool :=
  isNumberChar c || (c = '+' || c = '-') && (previous = 'e' || previous = 'E') && !hexadecimal

theorem numberRun_cons (hexadecimal : Bool) (previous c : Char) (cs : List Char) :
    numberRun hexadecimal previous (c :: cs) =
      if numberGoesOn hexadecimal previous c then c :: numberRun hexadecimal c cs else [] := rfl

theorem numberRun_prefix (hexadecimal : Bool) (previous : Char) (text : List Char) :
    numberRun hexadecimal previous text <+: text := by
  induction text generalizing previous with
  | nil => exact List.prefix_rfl
  | cons c cs ih =>
    rw [numberRun_cons]
    split
    · exact List.cons_prefix_cons.2 ⟨rfl, ih c⟩
    · exact List.nil_prefix

theorem numberRun_replaces {previous : Char} {after : List Char}
    (h : numberRun hexadecimal previous (number ++ after) = number) (ha : Replaces after after') :
    numberRun hexadecimal previous (number ++ after') = number := by
  induction number generalizing previous with
  | nil =>
    have stops : ∀ c ∈ after'.head?, numberGoesOn hexadecimal previous c = false := by
      refine ha.head_false (by simp [numberGoesOn, isNumberChar])
        (by simp [numberGoesOn, isNumberChar]) ?_
      intro c hc
      cases after with
      | nil => cases hc
      | cons d ds =>
        cases hc
        rw [List.nil_append, numberRun_cons] at h
        by_contra hgo
        simp [hgo] at h
    cases after' with
    | nil => rfl
    | cons d ds =>
      rw [List.nil_append, numberRun_cons, stops d rfl]
      rfl
  | cons c number ih =>
    rw [List.cons_append, numberRun_cons] at h ⊢
    split at h
    · next hc =>
      rw [if_pos hc, ih (List.cons.inj h).2]
    · cases h

theorem isHexadecimal_cons_cons (c d : Char) (cs : List Char) :
    isHexadecimal (c :: d :: cs) = (c = '0' && (d = 'x' || d = 'X')) := by
  unfold isHexadecimal
  split
  · next heq => simp_all
  · next heq => simp_all
  · next hlower hupper =>
    by_cases hc : c = '0'
    · subst hc
      have lower : d ≠ 'x' := fun hd => hlower cs (by rw [hd])
      have upper : d ≠ 'X' := fun hd => hupper cs (by rw [hd])
      simp [lower, upper]
    · simp [hc]

/-- A number that is hexadecimal has the mark of it inside. -/
theorem isHexadecimal_append {after : List Char} (hn : number ≠ [])
    (h : numberRun hexadecimal ' ' (number ++ after) = number) :
    isHexadecimal (number ++ after) = isHexadecimal number := by
  rcases number with _ | ⟨c, _ | ⟨d, number⟩⟩
  · exact absurd rfl hn
  · rcases after with _ | ⟨d, after⟩
    · rfl
    · have mark : (d = 'x' || d = 'X') = false := by
        by_contra hd
        have goes_on : numberGoesOn hexadecimal c d = true := by
          simp only [Bool.not_eq_false, Bool.or_eq_true, decide_eq_true_eq] at hd
          rcases hd with rfl | rfl <;> simp [numberGoesOn, isNumberChar]
        rw [List.cons_append, List.nil_append, numberRun_cons, numberRun_cons, if_pos goes_on] at h
        split at h <;> simp at h
      rw [List.cons_append, List.nil_append, isHexadecimal_cons_cons, mark, Bool.and_false]
      simp [isHexadecimal]
  · simp only [List.cons_append, isHexadecimal_cons_cons]

theorem numberAt_replaces {after : List Char} (hn : number ≠ [])
    (h : numberAt (number ++ after) = number) (ha : Replaces after after') :
    numberAt (number ++ after') = number := by
  unfold numberAt at h ⊢
  have run := numberRun_replaces h ha
  rwa [isHexadecimal_append hn h, ← isHexadecimal_append hn run] at run

end Cursor

/-! ## Symbols -/

theorem symbolChars_self : ∀ s ∈ symbolChars, symbolAt? s = some s := by decide

/-- A symbol is in the table, not empty, and at the front of the text. -/
theorem symbolAt?_front {text symbol : List Char} (h : symbolAt? text = some symbol) :
    symbol ∈ symbolChars ∧ symbol ≠ [] ∧ symbol <+: text := by
  have nonempty : ∀ s ∈ symbolChars, s ≠ [] := by decide
  have found := List.find?_some h
  have listed := List.mem_of_find?_eq_some h
  exact ⟨listed, nonempty symbol listed, List.isPrefixOf_iff_prefix.1 found⟩

/-- Characters that stand between tokens, or start what does. -/
def gapStarts : List Char := [' ', '\t', '\x0c', '\r', '\n', '#', '\\']

theorem gapStarts_symbol {c : Char} (hc : c ∈ gapStarts) : ∀ s ∈ symbolChars, c ∉ s := by
  simp only [gapStarts, List.mem_cons, List.not_mem_nil, or_false] at hc
  rcases hc with rfl | rfl | rfl | rfl | rfl | rfl | rfl <;> decide

/-- A text without a character is at the front of one with it if it is at the front of what
comes before. -/
theorem prefix_append_cons_iff {symbol text cs : List Char} {c : Char} (hc : c ∉ symbol) :
    symbol <+: text ++ c :: cs ↔ symbol <+: text := by
  induction symbol generalizing text with
  | nil => simp
  | cons s symbol ih =>
    simp only [List.mem_cons, not_or] at hc
    cases text with
    | nil => simp [List.cons_prefix_cons, Ne.symm hc.1]
    | cons t text => simp [List.cons_prefix_cons, ih hc.2]

theorem symbolAt?_append_cons (text cs : List Char) {c : Char} (hc : ∀ s ∈ symbolChars, c ∉ s) :
    symbolAt? (text ++ c :: cs) = symbolAt? text := by
  unfold symbolAt?
  refine List.find?_congr fun s hs => ?_
  rw [Bool.eq_iff_iff, List.isPrefixOf_iff_prefix, List.isPrefixOf_iff_prefix,
    prefix_append_cons_iff (hc s hs)]

theorem symbolAt?_replaces {symbol after : List Char}
    (h : symbolAt? (symbol ++ after) = some symbol) (ha : Cursor.Replaces after after') :
    symbolAt? (symbol ++ after') = some symbol := by
  cases ha with
  | @blank c cs hb =>
    have absent : ∀ s ∈ symbolChars, c ∉ s := by
      rcases hb with rfl | rfl <;> exact gapStarts_symbol (by decide)
    rw [symbolAt?_append_cons _ _ absent]
    exact symbolChars_self symbol (List.mem_of_find?_eq_some h)
  | append more hline =>
    obtain ⟨front, back, rfl⟩ := List.append_of_mem hline
    have absent : ∀ s ∈ symbolChars, '\n' ∉ s := gapStarts_symbol (by decide)
    rw [← List.append_assoc, symbolAt?_append_cons _ _ absent] at h
    rw [List.append_assoc front, List.cons_append, ← List.append_assoc,
      symbolAt?_append_cons _ _ absent, h]

/-! ## Tokens -/

/-- Whether a text starts with a quote. -/
def startsQuote (text : List Char) : Bool := text.head? = some '"' || text.head? = some '\''

/-- Whether a text starts with a number. -/
def startsNumber : List Char → Bool
  | [] => false
  | c :: cs => c.isDigit || (c = '.' && (cs.headD ' ').isDigit)

/-- A token that starts with the given word: a name, or a string if quotes come `after` it. -/
def wordTokenAt? (word after : List Char) : Option (TokenKind × List Char) :=
  if startsQuote after && opensString word then
    (Cursor.stringAt? after).map fun string => (.string, word ++ string)
  else some (.ident, word)

/-- Kind and characters of the token at the front of a text; nothing where there is none. -/
def tokenAt? (text : List Char) : Option (TokenKind × List Char) :=
  if startsQuote text then (Cursor.stringAt? text).map (.string, ·)
  else if startsNumber text then
    if Cursor.isNumber (Cursor.numberAt text) then some (.number, Cursor.numberAt text) else none
  else if text.head?.any Cursor.isWordStart then
    wordTokenAt? (Cursor.wordAt text) (text.drop (Cursor.wordAt text).length)
  else (symbolAt? text).map (.symbol, ·)

theorem tokenAt?_gap {c : Char} (hc : c ∈ gapStarts) (cs : List Char) :
    tokenAt? (c :: cs) = none := by
  have other : startsQuote [c] = false ∧ c.isDigit = false ∧ c ≠ '.' ∧
      Cursor.isWordStart c = false ∧ symbolAt? [] = none := by
    simp only [gapStarts, List.mem_cons, List.not_mem_nil, or_false] at hc
    rcases hc with rfl | rfl | rfl | rfl | rfl | rfl | rfl <;> decide
  have symbol : symbolAt? (c :: cs) = none := by
    rw [← other.2.2.2.2, ← symbolAt?_append_cons [] cs (gapStarts_symbol hc), List.nil_append]
  have quote : startsQuote (c :: cs) = false := other.1
  simp [tokenAt?, startsNumber, quote, other, symbol]

theorem numberAt_ne_nil {text : List Char} (h : startsNumber text = true) :
    Cursor.numberAt text ≠ [] := by
  cases text with
  | nil => cases h
  | cons c cs =>
    have goes_on (hexadecimal : Bool) : Cursor.numberGoesOn hexadecimal ' ' c = true := by
      simp only [startsNumber, Bool.or_eq_true, Bool.and_eq_true, decide_eq_true_eq] at h
      rcases h with h | ⟨rfl, -⟩
      · simp [Cursor.numberGoesOn, Cursor.isNumberChar, Char.isAlphanum, h]
      · simp [Cursor.numberGoesOn, Cursor.isNumberChar]
    rw [Cursor.numberAt, Cursor.numberRun_cons, if_pos (goes_on _)]
    simp

theorem isWordChar_of_isWordStart {c : Char} (h : Cursor.isWordStart c = true) :
    Cursor.isWordChar c = true := by
  simp only [Cursor.isWordStart, Bool.or_eq_true] at h
  simp only [Cursor.isWordChar, Text.isAlphanumeric, Bool.or_eq_true]
  rcases h with h | h
  · exact .inl (.inl h)
  · exact .inr h

/-- A name is not empty, and starts with a character of a name. -/
theorem exists_wordAt {text : List Char} (h : text.head?.any Cursor.isWordStart = true) :
    ∃ c cs, Cursor.wordAt text = c :: cs ∧ Cursor.isWordChar c = true := by
  cases text with
  | nil => cases h
  | cons c cs =>
    have first : Cursor.isWordChar c = true := isWordChar_of_isWordStart (by simpa using h)
    exact ⟨c, cs.takeWhile Cursor.isWordChar, by simp [Cursor.wordAt, first], first⟩

/-- What the token at the front of a text is, by its kind. -/
inductive TokenAt (text : List Char) : TokenKind → List Char → Prop
  | string (letters : List Char) {string} : letters <+: text →
      letters = [] ∨ opensString letters = true →
      startsQuote (text.drop letters.length) = true →
      Cursor.stringAt? (text.drop letters.length) = some string →
      TokenAt text .string (letters ++ string)
  | number : startsNumber text = true → TokenAt text .number (Cursor.numberAt text)
  | name : text.head?.any Cursor.isWordStart = true → TokenAt text .ident (Cursor.wordAt text)
  | symbol {symbol} : symbolAt? text = some symbol → TokenAt text .symbol symbol

theorem tokenAt?_cases {text : List Char} (h : tokenAt? text = some (kind, token)) :
    TokenAt text kind token := by
  unfold tokenAt? at h
  split at h
  · next hq =>
    obtain ⟨string, hstring, heq⟩ := Option.map_eq_some_iff.1 h
    cases heq
    exact .string [] List.nil_prefix (.inl rfl) hq hstring
  split at h
  · next hn =>
    split at h
    · cases h
      exact .number hn
    · cases h
  split at h
  · next hw =>
    unfold wordTokenAt? at h
    split at h
    · next hopen =>
      obtain ⟨string, hstring, heq⟩ := Option.map_eq_some_iff.1 h
      cases heq
      obtain ⟨hq, letters⟩ := Bool.and_eq_true_iff.1 hopen
      exact .string _ (List.takeWhile_prefix _) (.inr letters) hq hstring
    · cases h
      exact .name hw
  · obtain ⟨symbol, hsymbol, heq⟩ := Option.map_eq_some_iff.1 h
    cases heq
    exact .symbol hsymbol

/-- A token is a part of the text, not empty and not layout. -/
theorem tokenAt?_front {text : List Char} (h : tokenAt? text = some (kind, token)) :
    token <+: text ∧ token ≠ [] ∧ kind ∈ [.string, .number, .ident, .symbol] := by
  cases tokenAt?_cases h with
  | string letters front _ _ hstring =>
    obtain ⟨a, b, cs, rfl, front'⟩ := Cursor.stringAt?_cons_cons hstring
    have whole := (List.prefix_append_right_inj letters).2 front'
    rw [List.prefix_iff_eq_append.1 front] at whole
    exact ⟨whole, by simp, by simp⟩
  | number hn => exact ⟨Cursor.numberRun_prefix _ _ _, numberAt_ne_nil hn, by simp⟩
  | name hw =>
    obtain ⟨c, cs, heq, -⟩ := exists_wordAt hw
    exact ⟨List.takeWhile_prefix _, by simp [heq], by simp⟩
  | symbol hsymbol =>
    obtain ⟨-, nonempty, front⟩ := symbolAt?_front hsymbol
    exact ⟨front, nonempty, by simp⟩

section

variable {token after after' : List Char} {kind : TokenKind}

theorem startsQuote_append (ht : token ≠ []) :
    startsQuote (token ++ after) = startsQuote token := by
  cases token with
  | nil => exact absurd rfl ht
  | cons c cs => rfl

/-- Only what comes after a point can make it the start of a number. -/
theorem startsNumber_replaces (ht : token ≠ []) (ha : Cursor.Replaces after after')
    (h : startsNumber (token ++ after) = false) : startsNumber (token ++ after') = false := by
  rcases token with _ | ⟨c, _ | ⟨d, cs⟩⟩
  · exact absurd rfl ht
  · simp only [startsNumber, List.cons_append, List.nil_append, Bool.or_eq_false_iff,
      Bool.and_eq_false_iff] at h ⊢
    refine ⟨h.1, h.2.imp_right fun hd => ?_⟩
    cases after' with
    | nil => rfl
    | cons e es =>
      refine ha.head_false (p := Char.isDigit) (by decide) (by decide) (fun f hf => ?_) e rfl
      cases after with
      | nil => cases hf
      | cons g gs =>
        cases hf
        exact hd
  · exact h

/-- A number is the start of a number. -/
theorem startsNumber_numberAt {text : List Char} (h : startsNumber text = true) :
    startsNumber (Cursor.numberAt text) = true := by
  rcases text with _ | ⟨c, cs⟩
  · cases h
  · have first := numberAt_ne_nil h
    rw [Cursor.numberAt, Cursor.numberRun_cons] at first ⊢
    split at first
    · next hc =>
      rw [if_pos hc]
      simp only [startsNumber, Bool.or_eq_true, Bool.and_eq_true, decide_eq_true_eq] at h ⊢
      refine h.imp_right fun hpoint => ⟨hpoint.1, ?_⟩
      rcases cs with _ | ⟨d, cs⟩
      · simp at hpoint
      · have digit : d.isDigit = true := hpoint.2
        have goes_on (hexadecimal : Bool) : Cursor.numberGoesOn hexadecimal c d = true := by
          simp [Cursor.numberGoesOn, Cursor.isNumberChar, Char.isAlphanum, digit]
        rw [Cursor.numberRun_cons, if_pos (goes_on _)]
        exact digit
    · exact absurd rfl first

theorem stringAt?_replaces (hq : startsQuote token = true)
    (h : Cursor.stringAt? (token ++ after) = some token) (ha : Cursor.Replaces after after') :
    Cursor.stringAt? (token ++ after') = some token := by
  refine Cursor.stringAt?_front h ?_
  obtain ⟨a, b, cs, rfl, -⟩ := Cursor.stringAt?_cons_cons h
  cases cs with
  | cons c cs => rw [Cursor.isTriple_append (by simp), Cursor.isTriple_append (by simp)]
  | nil =>
    -- An empty string: its quotes were not triple, and a blank does not make them so.
    have single (ds : List Char) : Cursor.isTriple ([a, b] ++ ds) = (a = b && ds.head? = some a) := by
      cases ds with
      | nil => simp [Cursor.isTriple]
      | cons d ds => simp [Cursor.isTriple, eq_comm]
    have plain : Cursor.isTriple ([a, b] ++ after) = false := by
      by_contra ht
      rw [Bool.not_eq_false] at ht
      simp only [List.cons_append, Cursor.stringAt?, List.nil_append] at h ht
      rw [if_pos ht] at h
      obtain ⟨body, -, heq⟩ := Option.map_eq_some_iff.1 h
      simp at heq
    rw [plain, single]
    rw [single] at plain
    by_cases hab : a = b
    · simp only [hab, decide_true, Bool.true_and, decide_eq_false_iff_not] at plain ⊢
      intro hhead
      rcases ha.head hhead with rfl | rfl | hb
      · simp [startsQuote, hab] at hq
      · simp [startsQuote, hab] at hq
      · exact plain hb
    · simp [hab]

theorem startsNumber_append (h : startsNumber token = true) :
    startsNumber (token ++ after) = true := by
  rcases token with _ | ⟨c, _ | ⟨d, cs⟩⟩
  · cases h
  · have digit : c.isDigit = true := by simpa [startsNumber] using h
    simp [startsNumber, digit]
  · exact h

/-- A name, or a string that starts with letters, stays where it is. -/
theorem wordTokenAt?_replaces
    (h : wordTokenAt? (Cursor.wordAt (token ++ after))
      ((token ++ after).drop (Cursor.wordAt (token ++ after)).length) = some (kind, token))
    (ha : Cursor.Replaces after after') :
    wordTokenAt? (Cursor.wordAt (token ++ after'))
      ((token ++ after').drop (Cursor.wordAt (token ++ after')).length) = some (kind, token) := by
  unfold wordTokenAt? at h
  split at h
  · next hopen =>
    obtain ⟨string, hstring, heq⟩ := Option.map_eq_some_iff.1 h
    obtain ⟨rfl, hword⟩ := Prod.mk.inj heq
    generalize hw : Cursor.wordAt (token ++ after) = word at hopen hstring hword
    subst hword
    rw [List.append_assoc, List.drop_left] at hopen hstring
    obtain ⟨a, b, cs, hcs, -⟩ := Cursor.stringAt?_cons_cons hstring
    have nonempty : string ≠ [] := by simp [hcs]
    have word : Cursor.wordAt (word ++ string ++ after') = word := by
      rw [Cursor.wordAt, List.append_assoc, Cursor.takeWhile_append_eq_iff] at hw ⊢
      rw [List.head?_append_of_ne_nil _ nonempty] at hw ⊢
      exact hw
    rw [startsQuote_append nonempty, Bool.and_eq_true] at hopen
    rw [word, List.append_assoc, List.drop_left, wordTokenAt?, startsQuote_append nonempty,
      hopen.1, hopen.2, stringAt?_replaces hopen.1 hstring ha]
    rfl
  · next hopen =>
    obtain ⟨rfl, hword⟩ := Prod.mk.inj (Option.some.inj h)
    rw [hword, List.drop_left] at hopen
    have word : Cursor.wordAt (token ++ after') = token := by
      rw [Cursor.wordAt, Cursor.takeWhile_append_eq_iff] at hword ⊢
      exact ⟨hword.1, ha.head_false (by decide) (by decide) hword.2⟩
    have still : ¬ (startsQuote after' && opensString token) = true := by
      simp only [Bool.and_eq_true, not_and] at hopen ⊢
      intro hq hstring
      refine hopen ?_ hstring
      by_contra hquote
      have parts : ∀ c ∈ after'.head?, (c = '"' || c = '\'' : Bool) = false := by
        refine ha.head_false (by decide) (by decide) fun c hc => ?_
        rw [Option.mem_def] at hc
        simpa [startsQuote, hc] using hquote
      cases after' with
      | nil => cases hq
      | cons c cs =>
        simp only [startsQuote, List.head?_cons, Option.some.injEq] at hq
        cases (parts c rfl).symm.trans hq
    rw [word, List.drop_left, wordTokenAt?, if_neg still]

/-- **A token stays where it is when what comes after it is replaced.** -/
theorem tokenAt?_replaces (h : tokenAt? (token ++ after) = some (kind, token))
    (ha : Cursor.Replaces after after') : tokenAt? (token ++ after') = some (kind, token) := by
  obtain ⟨-, ht, -⟩ := tokenAt?_front h
  have head : (token ++ after').head? = (token ++ after).head? := by
    rw [List.head?_append_of_ne_nil _ ht, List.head?_append_of_ne_nil _ ht]
  unfold tokenAt? at h ⊢
  rw [startsQuote_append ht] at h ⊢
  rw [head]
  split at h
  · next hq =>
    obtain ⟨string, hstring, heq⟩ := Option.map_eq_some_iff.1 h
    cases heq
    rw [if_pos hq, stringAt?_replaces hq hstring ha]
    rfl
  next hq =>
  rw [if_neg hq]
  split at h
  · next hn =>
    split at h
    · next hnumber =>
      simp only [Option.some.injEq, Prod.mk.injEq] at h
      obtain ⟨rfl, h⟩ := h
      have number := Cursor.numberAt_replaces ht h ha
      have starts := startsNumber_numberAt hn
      rw [h] at starts hnumber
      rw [if_pos (startsNumber_append starts), number, if_pos hnumber]
    · cases h
  next hn =>
  have hn' := startsNumber_replaces ht ha (by simpa using hn)
  rw [if_neg (by simp [hn'])]
  split at h
  · next hw =>
    rw [if_pos hw]
    exact wordTokenAt?_replaces h ha
  · next hw =>
    rw [if_neg hw]
    obtain ⟨symbol, hsymbol, heq⟩ := Option.map_eq_some_iff.1 h
    cases heq
    rw [symbolAt?_replaces hsymbol ha]
    rfl

end

/-! ## Characters of tokens -/

theorem Cursor.mem_numberRun {previous c : Char} {text : List Char}
    (h : c ∈ numberRun hexadecimal previous text) : isNumberChar c = true ∨ c = '+' ∨ c = '-' := by
  induction text generalizing previous with
  | nil => cases h
  | cons d ds ih =>
    rw [numberRun_cons] at h
    split at h
    · next goes =>
      rcases List.mem_cons.1 h with rfl | h
      · simp only [numberGoesOn, Bool.or_eq_true, Bool.and_eq_true, decide_eq_true_eq] at goes
        tauto
      · exact ih h
    · cases h

/-- Only a string can hold a character that is in no number, name or symbol. -/
theorem notMem_of_tokenAt? {c : Char} (hn : ¬ (Cursor.isNumberChar c = true ∨ c = '+' ∨ c = '-'))
    (hw : Cursor.isWordChar c ≠ true) (hs : ∀ s ∈ symbolChars, c ∉ s) {text : List Char}
    (h : tokenAt? text = some (kind, token)) (hk : kind ≠ .string) : c ∉ token := by
  cases tokenAt?_cases h with
  | string => exact absurd rfl hk
  | number => exact fun hmem => hn (Cursor.mem_numberRun hmem)
  | name => exact fun hmem => hw (List.all_eq_true.1 List.all_takeWhile _ hmem)
  | symbol hsymbol => exact hs _ (symbolAt?_front hsymbol).1

/-- A text that is one token, and no string. -/
def Token.IsWord (t : Token) : Prop :=
  tokenAt? t.text.toList = some (t.kind, t.text.toList) ∧ t.kind ≠ .string

instance (t : Token) : Decidable t.IsWord := inferInstanceAs (Decidable (_ ∧ _))

theorem Token.IsWord.nul_notMem {t : Token} (h : t.IsWord) : '\x00' ∉ t.text.toList :=
  notMem_of_tokenAt? (by decide) (by decide) (by decide) h.1 h.2

end SdkUsage
