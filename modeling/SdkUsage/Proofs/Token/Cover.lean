/-
The lexer loses no text. Between two tokens there is only what may stand there
(`Gap`): blanks, comments and joined lines. Each token covers the text it has,
and the end token stands at the end.
-/
import Mathlib.Data.List.Chain
import SdkUsage.Proofs.Token.Stream

namespace SdkUsage

/-! ## What may stand between tokens -/

/-- A line is over: nothing comes, or a line feed, or the character that ends a text. -/
def EndsLine (text : List Char) : Prop := ∀ c ∈ text.head?, c = '\n' ∨ c = '\x00'

/-- Characters that may stand between tokens. -/
def gapChars : List Char := [' ', '\t', '\x0c', '\r', '\n']

/-- A text that may stand before `after`, between tokens. -/
inductive Gap : List Char → (after : List Char) → Prop
  | nil {after} : Gap [] after
  | blank {c cs after} : c ∈ gapChars → Gap cs after → Gap (c :: cs) after
  | comment {cs ds after} : '\n' ∉ cs → EndsLine (ds ++ after) → Gap ds after →
      Gap ('#' :: cs ++ ds) after
  | joined {cs after} : Gap cs after → Gap ('\\' :: '\n' :: cs) after
  | joinedReturn {cs after} : Gap cs after → Gap ('\\' :: '\r' :: '\n' :: cs) after

theorem Gap.append {gap gap' after : List Char} (h : Gap gap (gap' ++ after))
    (h' : Gap gap' after) : Gap (gap ++ gap') after := by
  generalize hwhole : gap' ++ after = whole at h
  induction h with
  | nil => exact h'
  | blank hc _ ih => exact .blank hc (ih hwhole)
  | comment hline hend _ ih =>
    subst hwhole
    rw [List.append_assoc]
    exact .comment hline (by rwa [List.append_assoc]) (ih rfl)
  | joined _ ih => exact .joined (ih hwhole)
  | joinedReturn _ ih => exact .joinedReturn (ih hwhole)

theorem EndsLine.append {text more : List Char} (h : EndsLine text) (hm : EndsLine more) :
    EndsLine (text ++ more) := by
  cases text with
  | nil => exact hm
  | cons c cs => exact h

/-- A comment that reaches the end of a text reaches what ends it. -/
theorem Gap.extend {gap after more : List Char} (h : Gap gap after) (hm : EndsLine more) :
    Gap gap (after ++ more) := by
  induction h with
  | nil => exact .nil
  | blank hc _ ih => exact .blank hc ih
  | comment hline hend _ ih =>
    exact .comment hline (by rw [← List.append_assoc]; exact hend.append hm) ih
  | joined _ ih => exact .joined ih
  | joinedReturn _ ih => exact .joinedReturn ih

/-- A text that may stand between tokens, where a comment may have begun before it. -/
def GapWithin (comment : Bool) (gap after : List Char) : Prop :=
  if comment then ∃ cs ds, gap = cs ++ ds ∧ '\n' ∉ cs ∧ EndsLine (ds ++ after) ∧ Gap ds after
  else Gap gap after

namespace GapWithin

variable {gap after : List Char}

theorem line (comment : Bool) (h : GapWithin false gap after) :
    GapWithin comment ('\n' :: gap) after := by
  have here : Gap ('\n' :: gap) after := .blank (by simp [gapChars]) h
  cases comment with
  | false => exact here
  | true => exact ⟨[], '\n' :: gap, rfl, by simp, by simp [EndsLine], here⟩

theorem blank {c : Char} (hc : c ∈ gapChars) (h : GapWithin false gap after) :
    GapWithin false (c :: gap) after :=
  Gap.blank hc h

theorem commentChar {c : Char} (hc : c ≠ '\n') (h : GapWithin true gap after) :
    GapWithin true (c :: gap) after := by
  obtain ⟨cs, ds, rfl, hline, hend, hgap⟩ := h
  exact ⟨c :: cs, ds, rfl, by simp [Ne.symm hc, hline], hend, hgap⟩

theorem hash (h : GapWithin true gap after) : GapWithin false ('#' :: gap) after := by
  obtain ⟨cs, ds, rfl, hline, hend, hgap⟩ := h
  exact Gap.comment hline hend hgap

end GapWithin

namespace Cursor

/-- A position is reached over what may stand between tokens. -/
def Skips (comment : Bool) (rest : List Char) (offset : Nat) (last : Cursor) : Prop :=
  ∃ gap, rest = gap ++ last.rest ∧ last.offset = offset + Text.byteLength gap ∧
    GapWithin comment gap last.rest

theorem Skips.stay {comment : Bool} {rest : List Char} {offset line col : Nat}
    (h : comment = true → EndsLine rest) : Skips comment rest offset ⟨rest, offset, line, col⟩ := by
  refine ⟨[], rfl, rfl, ?_⟩
  cases comment with
  | false => exact Gap.nil
  | true => exact ⟨[], [], rfl, by simp, h rfl, .nil⟩

theorem Skips.append {comment comment' : Bool} (front : List Char) {rest : List Char}
    {offset offset' : Nat} {last : Cursor} (h : Skips comment' rest offset' last)
    (ho : offset' = offset + Text.byteLength front)
    (hg : ∀ gap, GapWithin comment' gap last.rest → GapWithin comment (front ++ gap) last.rest) :
    Skips comment (front ++ rest) offset last := by
  obtain ⟨gap, hrest, hoffset, hgap⟩ := h
  refine ⟨front ++ gap, by rw [List.append_assoc, ← hrest], ?_, hg gap hgap⟩
  rw [hoffset, ho, Text.byteLength_append, Nat.add_assoc]

/-- Reading an indentation passes nothing else. -/
theorem indentation_skips (width : Nat) (comment : Bool) (rest : List Char)
    (offset line col : Nat) :
    Skips comment rest offset (indentation width comment rest offset line col).2 := by
  fun_induction indentation width comment rest offset line col with
  | case1 => exact .stay fun _ => by simp [EndsLine]
  | case2 width comment offset line col cs ih => exact ih.append ['\n'] rfl fun _ => .line comment
  | case3 width offset line col c cs hc ih => exact ih.append [c] rfl fun _ => .commentChar hc
  | case9 width comment offset line col c cs hc hcomment => exact .stay fun h => absurd h hcomment
  | case7 width comment offset line col cs hcomment _ _ _ _ ih =>
    rw [Bool.not_eq_true] at hcomment
    rw [hcomment]
    exact ih.append ['#'] rfl fun _ => .hash
  | case4 width comment offset line col cs hcomment _ ih
  | case5 width comment offset line col cs hcomment _ _ ih
  | case6 width comment offset line col cs hcomment _ _ _ ih
  | case8 width comment offset line col cs hcomment _ _ _ _ _ ih =>
    rw [Bool.not_eq_true] at hcomment
    rw [hcomment]
    exact ih.append [_] rfl fun _ => .blank (by simp [gapChars])

/-- Passing blanks passes nothing else. -/
theorem blanks_skips (joined comment : Bool) (rest : List Char) (offset line col : Nat) :
    Skips comment rest offset (blanks joined comment rest offset line col).2 := by
  fun_induction blanks joined comment rest offset line col with
  | case1 => exact .stay fun _ => by simp [EndsLine]
  | case2 comment offset line col cs hjoined ih => exact ih.append ['\n'] rfl fun _ => .line comment
  | case3 => exact .stay fun _ => by simp [EndsLine]
  | case4 offset line col c cs hc ih => exact ih.append [c] rfl fun _ => .commentChar hc
  | case11 comment offset line col cs hcomment => exact .stay fun h => absurd h hcomment
  | case12 comment offset line col c cs hc hcomment => exact .stay fun h => absurd h hcomment
  | case8 comment offset line col cs hcomment _ _ _ _ ih =>
    rw [Bool.not_eq_true] at hcomment
    rw [hcomment]
    exact ih.append ['#'] rfl fun _ => .hash
  | case5 comment offset line col c cs hc hcomment hblank ih =>
    rw [Bool.not_eq_true] at hcomment
    rw [hcomment]
    rcases hblank with rfl | rfl
    · exact ih.append [_] rfl fun _ => .blank (by simp [gapChars])
    · exact ih.append [_] rfl fun _ => .blank (by simp [gapChars])
  | case6 comment offset line col cs hcomment _ _ ih
  | case7 comment offset line col cs hcomment _ _ _ ih =>
    rw [Bool.not_eq_true] at hcomment
    rw [hcomment]
    exact ih.append [_] rfl fun _ => .blank (by simp [gapChars])
  | case9 comment offset line col hcomment cs _ _ _ _ _ ih =>
    rw [Bool.not_eq_true] at hcomment
    rw [hcomment]
    exact ih.append ['\\', '\n'] rfl fun _ => Gap.joined
  | case10 comment offset line col hcomment cs _ _ _ _ _ ih =>
    rw [Bool.not_eq_true] at hcomment
    rw [hcomment]
    exact ih.append ['\\', '\r', '\n'] rfl fun _ => Gap.joinedReturn

/-- Two positions with only what may stand between tokens between them. -/
def Over (first last : Cursor) : Prop := ∃ gap, first.Passes gap last ∧ Gap gap last.rest

theorem Over.refl (cursor : Cursor) : cursor.Over cursor := ⟨[], .refl cursor, .nil⟩

theorem Over.trans {first middle last : Cursor} (h : first.Over middle) (h' : middle.Over last) :
    first.Over last := by
  obtain ⟨gap, hpasses, hgap⟩ := h
  obtain ⟨gap', hpasses', hgap'⟩ := h'
  refine ⟨gap ++ gap', hpasses.trans hpasses', ?_⟩
  rw [hpasses'.rest] at hgap
  exact hgap.append hgap'

theorem over_readIndentation (cursor : Cursor) : cursor.Over cursor.readIndentation.2 := by
  obtain ⟨gap, hrest, hoffset, hgap⟩ :=
    indentation_skips 0 false cursor.rest cursor.offset cursor.line cursor.col
  exact ⟨gap, ⟨hrest, hoffset⟩, hgap⟩

theorem over_skipBlanks (joined : Bool) (cursor : Cursor) :
    cursor.Over (cursor.skipBlanks joined).2 := by
  obtain ⟨gap, hrest, hoffset, hgap⟩ :=
    blanks_skips joined false cursor.rest cursor.offset cursor.line cursor.col
  exact ⟨gap, ⟨hrest, hoffset⟩, hgap⟩

theorem over_nextLine {cursor : Cursor} {cs : List Char} (h : cursor.rest = '\n' :: cs) :
    cursor.Over cursor.nextLine :=
  ⟨['\n'], nextLine_passes h, .blank (by simp [gapChars]) .nil⟩

/-- An indentation that has no width ends the text. -/
theorem rest_of_indentation_none {width : Nat} {comment : Bool} {rest : List Char}
    {offset line col : Nat} (h : (indentation width comment rest offset line col).1 = none) :
    (indentation width comment rest offset line col).2.rest = [] := by
  fun_induction indentation width comment rest offset line col <;> simp_all

end Cursor

namespace Lexer

/-! ## Where tokens stand -/

/-- A token stands between two positions, the first one at or before its text. -/
structure Stands (t : Token) (first last : Cursor) : Prop where
  place : ∃ middle, first.Over middle ∧ middle.Passes t.text.toList last ∧
    t.span.start = middle.offset ∧ t.span.stop = last.offset
  written : t.isLayout = false → t.text.toList ≠ []
  eof : t.kind = .eof → t.text.toList = [] ∧ last.rest = []

theorem Stands.over {t : Token} {first middle last : Cursor} (h : Stands t middle last)
    (hf : first.Over middle) : Stands t first last := by
  obtain ⟨place, hover, hpasses⟩ := h.place
  exact ⟨⟨place, hf.trans hover, hpasses⟩, h.written, h.eof⟩

/-- The tokens that wait stand at the position. -/
def Settled (lexer : Lexer) : Prop := ∀ t ∈ lexer.pending, Stands t lexer.cursor lexer.cursor

variable {lexer : Lexer} {t : Token} {after : Lexer}

theorem layoutToken_stands {kind : TokenKind} (hk : (lexer.layoutToken kind).isLayout = true)
    (he : kind = .eof → lexer.cursor.rest = []) :
    Stands (lexer.layoutToken kind) lexer.cursor lexer.cursor where
  place := ⟨lexer.cursor, .refl _, .refl _, rfl, rfl⟩
  written := fun h => absurd (h.symm.trans hk) (by simp)
  eof := fun h => ⟨rfl, he h⟩

theorem Settled.noteToken (h : lexer.Settled) (t : Token) : (lexer.noteToken t).Settled := by
  unfold Settled
  rw [noteToken_cursor, noteToken_pending]
  exact h

/-- What ends a text stands at its end. -/
theorem finish_stands (h : lexer.finish = (some (.ok t), after)) (hr : lexer.cursor.rest = [])
    (hp : lexer.pending = []) :
    Stands t lexer.cursor after.cursor ∧ after.Settled := by
  obtain ⟨ts, rfl, closing⟩ := finish_ok h hp
  have stands : ∀ u ∈ t :: ts, Stands u lexer.cursor lexer.cursor := by
    intro u hu
    rw [← closing] at hu
    have layout := isLayout_closing hu
    obtain ⟨kind, -, rfl⟩ := mem_closingTokens hu
    exact layoutToken_stands layout fun _ => hr
  exact List.forall_mem_cons.1 stands

theorem indentTo_settled (h : lexer.Settled) (width : Nat) : (lexer.indentTo width).2.Settled := by
  obtain ⟨_, kinds, hkinds, after, -⟩ := lexer.indentTo_spec width
  rw [after]
  intro t ht
  rcases List.mem_append.1 ht with ht | ht
  · exact h t ht
  · obtain ⟨kind, hkind, rfl⟩ := List.mem_map.1 ht
    rcases hkinds kind hkind with rfl | rfl
    · exact layoutToken_stands rfl (by rintro ⟨⟩)
    · exact layoutToken_stands rfl (by rintro ⟨⟩)

theorem Starts.over {width : Option Nat} {cursor : Cursor} (h : lexer.Starts width cursor) :
    lexer.cursor.Over cursor := by
  have across := lexer.cursor.over_readIndentation
  rwa [h.indentation] at across

theorem Starts.rest {cursor : Cursor} (h : lexer.Starts none cursor) : cursor.rest = [] := by
  have rest := Cursor.rest_of_indentation_none (congrArg Prod.fst h.indentation)
  rwa [show Cursor.indentation _ _ _ _ _ _ = _ from h.indentation] at rest

theorem Reaches.over {cursor : Cursor} (h : lexer.Reaches cursor) : lexer.cursor.Over cursor := by
  have across := lexer.cursor.over_skipBlanks (0 < lexer.depth)
  rwa [h.blanks] at across

theorem settled_of_pending (h : lexer.pending = []) : lexer.Settled := by
  intro t ht
  rw [h] at ht
  cases ht

/-- **Each token stands where the lexer goes on.** -/
theorem Finds.stands (h : lexer.Finds t after) (hl : lexer.Settled) :
    Stands t lexer.cursor after.cursor ∧ after.Settled := by
  induction h with
  | @waiting l t ts hp =>
    have waits : Stands t l.cursor l.cursor := hl t (by simp [hp])
    have rest : Settled { l with pending := ts } :=
      fun u hu => hl u (hp ▸ List.mem_cons_of_mem t hu)
    rw [noteToken_cursor]
    exact ⟨waits, rest.noteToken t⟩
  | @indented l width cursor l' t l'' hs hi hf ih =>
    have here : (l.atIndented cursor).Settled := settled_of_pending hs.pending
    have settled := indentTo_settled here width
    have same := indentTo_cursor (l.atIndented cursor) width
    rw [hi] at settled same
    obtain ⟨stands, settled'⟩ := ih settled
    rw [show l'.cursor = cursor from same] at stands
    exact ⟨stands.over hs.over, settled'⟩
  | @ended l cursor t l' hs hf =>
    obtain ⟨stands, settled⟩ := finish_stands hf hs.rest hs.pending
    rw [noteToken_cursor]
    exact ⟨stands.over hs.over, settled.noteToken t⟩
  | @finished l cursor t l' hr hnil hf =>
    obtain ⟨stands, settled⟩ := finish_stands hf hnil hr.pending
    rw [noteToken_cursor]
    exact ⟨stands.over hr.over, settled.noteToken t⟩
  | @lineEnd l cursor cs hr hline hopen =>
    have written : (lineEndToken cursor).text.toList = ['\n'] := by simp [lineEndToken]
    refine ⟨⟨⟨cursor, hr.over, ?_, rfl, rfl⟩, ?_, ?_⟩, ?_⟩
    · rw [written]
      exact Cursor.nextLine_passes hline
    · rintro ⟨⟩
    · rintro ⟨⟩
    · exact settled_of_pending hr.pending
  | @emptyLine l cursor cs t l' hr hline hclosed hf ih =>
    obtain ⟨stands, settled⟩ := ih (settled_of_pending hr.pending)
    exact ⟨stands.over (hr.over.trans (Cursor.over_nextLine hline)), settled⟩
  | @word l cursor kind text last hr ht hpasses hs =>
    obtain ⟨-, nonempty, hkind⟩ := tokenAt?_front ht
    have same : (String.ofList text).toList = text := String.toList_ofList
    refine ⟨⟨⟨cursor, hr.over, ?_, rfl, rfl⟩, fun _ => ?_, fun he => ?_⟩, ?_⟩
    · rwa [tokenBetween, same]
    · rwa [tokenBetween, same]
    · rw [show kind = .eof from he] at hkind
      simp at hkind
    · exact settled_of_pending hr.pending

end Lexer

/-! ## The text of a source and its tokens -/

/-- An offset at which a character of the text starts, or at which the text ends. -/
def Text.Boundary (text : List Char) (offset : Nat) : Prop :=
  ∃ front, front <+: text ∧ Text.byteLength front = offset

/-- Between two offsets of a text there is only what may stand between tokens. -/
def GapBetween (text : List Char) (start stop : Nat) : Prop :=
  ∃ before gap after, text = before ++ gap ++ after ∧ start = Text.byteLength before ∧
    stop = start + Text.byteLength gap ∧ Gap gap after

theorem Text.byteLength_pos {text : List Char} (h : text ≠ []) : 0 < Text.byteLength text := by
  cases text with
  | nil => exact absurd rfl h
  | cons c cs => exact Nat.lt_of_lt_of_le c.utf8Size_pos (Nat.le_add_right _ _)

namespace Source

/-- The text up to the character that ends it. -/
def readChars (source : Source) : List Char := source.chars.takeWhile (· ≠ '\x00')

/-- A position in the text of a source. -/
structure Holds (source : Source) (cursor : Cursor) : Prop where
  place : ∃ before, source.readChars = before ++ cursor.rest ∧
    cursor.offset = Text.byteLength before

/-- Tokens cover the text of a source from an offset on. -/
structure Covered (source : Source) (offset : Nat) (ts : List Token) : Prop where
  within : ∀ t ∈ ts, t.span.start ≤ t.span.stop ∧ t.span.stop ≤ source.length
  boundary : ∀ t ∈ ts, Text.Boundary source.chars t.span.start ∧
    Text.Boundary source.chars t.span.stop
  text : ∀ t ∈ ts, t.span.text source = t.text
  written : ∀ t ∈ ts, t.isLayout = false → t.span.start < t.span.stop
  ordered : ts.IsChain fun t u => t.span.stop ≤ u.span.start
  first : ∀ t ∈ ts.head?, GapBetween source.chars offset t.span.start
  gaps : ts.IsChain fun t u => GapBetween source.chars t.span.stop u.span.start
  eof : ∀ t ∈ ts, t.kind = .eof → t.span.start = Text.byteLength source.readChars

variable {source : Source} {first last : Cursor} {t : Token} {ts : List Token}

theorem chars_eq (source : Source) :
    ∃ more, source.chars = source.readChars ++ more ∧ EndsLine more := by
  refine ⟨source.chars.dropWhile (· ≠ '\x00'), List.takeWhile_append_dropWhile.symm, ?_⟩
  intro c hc
  have := List.head?_dropWhile_not (fun c : Char => decide (c ≠ '\x00')) source.chars
  rw [hc] at this
  simpa using Or.inr this

theorem Holds.start (source : Source) : source.Holds (Lexer.start source).cursor :=
  ⟨[], rfl, rfl⟩

theorem Holds.passes {text : List Char} (h : source.Holds first) (hp : first.Passes text last) :
    source.Holds last := by
  obtain ⟨before, hchars, hoffset⟩ := h.place
  refine ⟨before ++ text, ?_, ?_⟩
  · rw [hchars, hp.rest, List.append_assoc]
  · rw [hp.offset, hoffset, Text.byteLength_append]

theorem Holds.boundary (h : source.Holds first) : Text.Boundary source.chars first.offset := by
  obtain ⟨before, hchars, hoffset⟩ := h.place
  obtain ⟨more, hmore, -⟩ := source.chars_eq
  refine ⟨before, ⟨first.rest ++ more, ?_⟩, hoffset.symm⟩
  rw [hmore, hchars, List.append_assoc]

theorem Holds.gap (h : source.Holds first) (ho : first.Over last) :
    source.Holds last ∧ GapBetween source.chars first.offset last.offset := by
  obtain ⟨gap, hpasses, hgap⟩ := ho
  obtain ⟨before, hchars, hoffset⟩ := h.place
  obtain ⟨more, hmore, hend⟩ := source.chars_eq
  refine ⟨h.passes hpasses, before, gap, last.rest ++ more, ?_, hoffset, hpasses.offset,
    hgap.extend hend⟩
  rw [hmore, hchars, hpasses.rest]
  simp only [List.append_assoc]

theorem Holds.text {text : List Char} (h : source.Holds first) (hp : first.Passes text last) :
    Text.slice source.chars first.offset last.offset = text ∧ last.offset ≤ source.length := by
  obtain ⟨before, hchars, hoffset⟩ := h.place
  obtain ⟨more, hmore, -⟩ := source.chars_eq
  have whole : source.chars = before ++ text ++ (last.rest ++ more) := by
    rw [hmore, hchars, hp.rest]
    simp only [List.append_assoc]
  rw [hp.offset, hoffset, length, whole, Text.slice_append]
  refine ⟨rfl, ?_⟩
  simp only [Text.byteLength_append]
  omega

/-- A token that stands before tokens that cover the rest. -/
theorem Covered.cons (h : source.Holds first) (ht : Lexer.Stands t first last)
    (hts : source.Covered last.offset ts) : source.Covered first.offset (t :: ts) := by
  obtain ⟨middle, hover, hpasses, hstart, hstop⟩ := ht.place
  obtain ⟨held, gap⟩ := h.gap hover
  obtain ⟨slice, inside⟩ := held.text hpasses
  have extent := hpasses.offset
  have ordered : ∀ u ∈ ts.head?, t.span.stop ≤ u.span.start := by
    intro u hu
    obtain ⟨before, gap, after, -, -, hgap, -⟩ := hts.first u hu
    omega
  rw [← hstop] at hts
  refine ⟨?_, ?_, ?_, ?_, ?_, ?_, ?_, ?_⟩
  · exact List.forall_mem_cons.2 ⟨⟨by omega, by omega⟩, hts.within⟩
  · refine List.forall_mem_cons.2 ⟨⟨?_, ?_⟩, hts.boundary⟩
    · rw [hstart]
      exact held.boundary
    · rw [hstop]
      exact (held.passes hpasses).boundary
  · refine List.forall_mem_cons.2 ⟨?_, hts.text⟩
    rw [Span.text, hstart, hstop, slice, String.ofList_toList]
  · refine List.forall_mem_cons.2 ⟨fun hw => ?_, hts.written⟩
    have positive := Text.byteLength_pos (ht.written hw)
    omega
  · exact List.isChain_cons.2 ⟨ordered, hts.ordered⟩
  · rintro _ ⟨⟩
    rwa [hstart]
  · exact List.isChain_cons.2 ⟨hts.first, hts.gaps⟩
  · refine List.forall_mem_cons.2 ⟨fun he => ?_, hts.eof⟩
    obtain ⟨hempty, hnil⟩ := ht.eof he
    obtain ⟨before, hchars, hoffset⟩ := (held.passes hpasses).place
    rw [hempty] at extent
    rw [hchars, hnil, List.append_nil, ← hoffset, hstart, extent]
    rfl

theorem covered_of_gives {lexer after : Lexer} (h : lexer.Gives ts after) (hl : lexer.Settled)
    (hh : source.Holds lexer.cursor) : source.Covered lexer.cursor.offset ts := by
  induction h with
  | nil l => exact ⟨by simp, by simp, by simp, by simp, by simp, by simp, by simp, by simp⟩
  | cons hn _ ih =>
    obtain ⟨stands, settled⟩ := (Lexer.next_eq_ok_iff.1 hn).stands hl
    refine .cons hh stands (ih settled ?_)
    obtain ⟨middle, hover, hpasses, -⟩ := stands.place
    exact (hh.gap hover).1.passes hpasses

/-- **The lexer loses no text.** The tokens it gives, as many as there are, cover the
text of the source from its start on. -/
theorem tokens_cover_text (source : Source) {ts : List Token} {after : Lexer}
    (h : (Lexer.start source).Gives ts after) : source.Covered 0 ts :=
  covered_of_gives h (Lexer.settled_of_pending rfl) (.start source)

/-- A text with a comment in brackets, joined lines, long characters and an end before its end. -/
def looselySet : Source where
  file := "main.py"
  text := "x = (1, # \u00e9\n  2) \\\r\n\t+ '\u00fc'\n \x0c# y\x00 z"

theorem looselySet_covered : ∃ ts after, (Lexer.start looselySet).Gives ts after ∧
    ts.length = 11 ∧ looselySet.Covered 0 ts := by
  have found : ((Lexer.start looselySet).tokens? 20).map List.length = some 11 := by decide +kernel
  obtain ⟨ts, hts, length⟩ := Option.map_eq_some_iff.1 found
  obtain ⟨-, after, gives⟩ := Lexer.gives_of_tokens hts
  exact ⟨ts, after, gives, length, tokens_cover_text looselySet gives⟩

end Source

end SdkUsage
