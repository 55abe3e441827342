/-
The canonical layout of tokens: one line for each logical line, indented by one
space for every open block, with single spaces between words. If a source has
no backslash outside its strings, its tokens in the canonical layout are cut
into the same tokens again (`relexed_alike`).
-/
import SdkUsage.Proofs.Token.Cover
import SdkUsage.Proofs.Token.Written

namespace SdkUsage

/-- The text of tokens in the canonical layout, where `level` blocks are open. A line is `fresh`
before its first word. -/
def layoutText : (level : Nat) → (fresh : Bool) → List Token → List Char
  | _, _, [] => []
  | level, fresh, t :: ts =>
    match t.kind with
    | .indent => layoutText (level + 1) fresh ts
    | .dedent => layoutText (level - 1) fresh ts
    | .newline => '\n' :: layoutText level true ts
    | .eof => layoutText level fresh ts
    | .symbol | .string | .number | .ident =>
      List.replicate (if fresh then level else 1) ' '
        ++ (t.text.toList ++ layoutText level false ts)

/-! ## Written in the canonical layout -/

section

variable {level : Nat} {fresh : Bool} {t : Token} {ts words : List Token}

theorem layoutText_word (h : t.Spelled) :
    layoutText level fresh (t :: ts) = List.replicate (if fresh then level else 1) ' '
      ++ (t.text.toList ++ layoutText level false ts) := by
  obtain ⟨after, h⟩ := h
  have kinds := (tokenAt?_front h).2.2
  simp only [List.mem_cons, List.not_mem_nil, or_false] at kinds
  rcases kinds with hk | hk | hk | hk <;> rw [layoutText, hk]

theorem layoutText_newline (h : t.kind = .newline) :
    layoutText level fresh (t :: ts) = '\n' :: layoutText level true ts := by
  rw [layoutText, h]

theorem layoutText_line (hw : ∀ w ∈ words, w.Spelled) (ht : t.kind = .newline) :
    layoutText level fresh (words ++ t :: ts) =
      layoutText level fresh words ++ '\n' :: layoutText level true ts := by
  induction words generalizing fresh with
  | nil => exact layoutText_newline ht
  | cons w words ih =>
    obtain ⟨spelled, hw⟩ := List.forall_mem_cons.1 hw
    rw [List.cons_append, layoutText_word spelled, layoutText_word spelled, ih hw]
    simp only [List.append_assoc]

theorem layoutText_opens {level' : Nat} {layout : List Token} (h : Opens level layout level') :
    layoutText level fresh (layout ++ ts) = layoutText level' fresh ts := by
  cases h with
  | block hk => rw [List.cons_append, List.nil_append, layoutText, hk]
  | close hts =>
    induction layout with
    | nil => rfl
    | cons t layout ih =>
      obtain ⟨hk, hts⟩ := List.forall_mem_cons.1 hts
      rw [← ih hts, List.cons_append, layoutText, hk]
      simp

theorem layoutText_closes (h : Closes level ts) : layoutText level fresh ts = [] := by
  induction h with
  | eof hk => rw [layoutText, hk]; rfl
  | block hk _ ih => rw [layoutText, hk]; exact ih

/-- Words in the canonical layout are spelled: what comes after each is a blank. -/
theorem spells_layoutText (level : Nat) (fresh : Bool) (hw : ∀ w ∈ words, w.Spelled)
    (more : List Char) :
    Spells ('\n' :: more) (if fresh then level else 1) words (layoutText level fresh words) := by
  induction words generalizing fresh with
  | nil => exact .nil
  | cons w words ih =>
    obtain ⟨spelled, hw⟩ := List.forall_mem_cons.1 hw
    rw [layoutText_word spelled]
    refine .cons ?_ (ih false hw)
    obtain ⟨after, spelled⟩ := spelled
    cases words with
    | nil => exact tokenAt?_replaces spelled (.blank (.inr rfl))
    | cons v words =>
      rw [layoutText_word (hw v List.mem_cons_self)]
      exact tokenAt?_replaces spelled (.blank (.inl rfl))

end

/-! ## Runs without a backslash between tokens -/

theorem Opens.keepsLine {level level' : Nat} {ts : List Token}
    (h : Opens level ts level') : ∀ t ∈ ts, Lexer.keepsLine t ∧ t.kind ≠ .eof := by
  refine fun t ht => ⟨?_, h.ne_eof t ht⟩
  cases h with
  | block hk =>
    cases List.mem_singleton.1 ht
    exact .inl hk
  | close hts => exact .inr (.inl (hts t ht))

theorem Cursor.Passes.rest_eq {first last : Cursor} {text : List Char}
    (h : first.Passes text last) (ho : last.offset ≤ first.offset) : first.rest = last.rest := by
  have offset := h.offset
  cases text with
  | nil => exact h.rest
  | cons c cs =>
    have positive := Text.byteLength_pos (List.cons_ne_nil c cs)
    omega

namespace Lexer

variable {lexer after last : Lexer} {t : Token} {ts : List Token}

theorem finish_eq_closing (h : lexer.finish = (some (.ok t), after)) (hp : lexer.pending = []) :
    ∃ us last, lexer.closingTokens = t :: us ∧ (after.noteToken t).Gives us last := by
  obtain ⟨u, l, us, last, finished, closing, given⟩ := finish_gives lexer hp
  cases finished.symm.trans h
  exact ⟨us, last, closing, given⟩

/-- A written token is found at a position that only what may stand between tokens leads to. -/
theorem Finds.spelled (h : lexer.Finds t after) (hq : lexer.Quiet) (ht : t.isLayout = false) :
    ∃ cursor, lexer.cursor.Over cursor ∧ t.span.start = cursor.offset ∧
      tokenAt? cursor.rest = some (t.kind, t.text.toList) := by
  induction h with
  | waiting hp =>
    have layout := hq _ (hp ▸ List.mem_cons_self)
    cases layout.symm.trans ht
  | @indented l width cursor l' t l'' hs hi _ ih =>
    have quiet : (l.atIndented cursor).Quiet := hq
    have indented := indentTo_quiet quiet width
    have same := indentTo_cursor (l.atIndented cursor) width
    rw [hi] at indented same
    obtain ⟨middle, across, start, token⟩ := ih indented ht
    rw [show l'.cursor = cursor from same] at across
    exact ⟨middle, hs.over.trans across, start, token⟩
  | ended hs hf =>
    obtain ⟨us, -, closing⟩ := finish_ok hf hs.pending
    cases (isLayout_closing (closing ▸ List.mem_cons_self)).symm.trans ht
  | finished hr _ hf =>
    obtain ⟨us, -, closing⟩ := finish_ok hf hr.pending
    cases (isLayout_closing (closing ▸ List.mem_cons_self)).symm.trans ht
  | lineEnd => cases ht
  | emptyLine hr hline _ _ ih =>
    obtain ⟨middle, across, start, token⟩ := ih hq ht
    exact ⟨middle, (hr.over.trans (Cursor.over_nextLine hline)).trans across, start, token⟩
  | @word l cursor kind text last hr htoken hpasses hs =>
    refine ⟨cursor, hr.over, rfl, ?_⟩
    rw [htoken, tokenBetween, String.toList_ofList]

/-- Written tokens come from the position on, and one that starts there stands at the front. -/
theorem Gives.written (h : lexer.Gives ts last) (hs : lexer.Settled) (hq : lexer.Quiet) :
    ∀ u ∈ ts, u.isLayout = false → lexer.cursor.offset ≤ u.span.start ∧
      (u.span.start = lexer.cursor.offset →
        tokenAt? lexer.cursor.rest = some (u.kind, u.text.toList)) := by
  induction h with
  | nil => simp
  | @cons l t l' ts l'' hn _ ih =>
    have found := next_eq_ok_iff.1 hn
    obtain ⟨stands, settled⟩ := found.stands hs
    obtain ⟨quiet, -⟩ := next_fair hq hn
    refine List.forall_mem_cons.2 ⟨fun hw => ?_, fun u hu hw => ?_⟩
    · obtain ⟨cursor, ⟨gap, passes, -⟩, hstart, token⟩ := found.spelled hq hw
      refine ⟨by rw [hstart, passes.offset]; omega, fun heq => ?_⟩
      rw [passes.rest_eq (by omega), token]
    · obtain ⟨middle, ⟨gap, hgap, -⟩, hpasses, -⟩ := stands.place
      have passes := hgap.trans hpasses
      have offset := passes.offset
      obtain ⟨hle, token⟩ := ih settled quiet u hu hw
      refine ⟨by omega, fun heq => ?_⟩
      rw [passes.rest_eq (by omega), token (by omega)]

/-- A run to the end token in which every backslash lies inside a string. -/
structure Clears (lexer : Lexer) (ts : List Token) (last : Lexer) : Prop where
  gives : lexer.Gives ts last
  ended : Ended ts
  settled : lexer.Settled
  quiet : lexer.Quiet
  strings : ∀ before after, lexer.cursor.rest = before ++ '\\' :: after →
    ∃ t ∈ ts, t.kind = .string ∧
      t.span.start ≤ lexer.cursor.offset + Text.byteLength before ∧
      lexer.cursor.offset + Text.byteLength before < t.span.stop

namespace Clears

/-- The run goes on after a token. -/
theorem step (h : lexer.Clears (t :: ts) last) (found : lexer.Finds t after)
    (ht : t.kind ≠ .eof) : after.Clears ts last := by
  obtain ⟨between, hn, gives⟩ := h.gives.uncons
  cases found.next_eq.symm.trans hn
  obtain ⟨stands, settled⟩ := found.stands h.settled
  obtain ⟨quiet, -⟩ := next_fair h.quiet hn
  have ended : Ended ts := by
    cases h.ended with
    | last he => exact absurd he ht
    | cons _ he => exact he
  refine ⟨gives, ended, settled, quiet, fun before rest hrest => ?_⟩
  obtain ⟨middle, ⟨gap, hgap, -⟩, hpasses, -, hstop⟩ := stands.place
  have passes := hgap.trans hpasses
  have offset := passes.offset
  obtain ⟨u, hu, hstring, hstart, hend⟩ := h.strings
    (gap ++ t.text.toList ++ before) rest (by rw [passes.rest, hrest, ← List.append_assoc])
  rw [Text.byteLength_append] at hstart hend
  refine ⟨u, ?_, hstring, by omega, by omega⟩
  rcases List.mem_cons.1 hu with rfl | hu
  · omega
  · exact hu

/-- No backslash stands between tokens. -/
theorem not_backslash (h : lexer.Clears ts last) {cs : List Char} :
    lexer.cursor.rest ≠ '\\' :: cs := by
  intro hrest
  obtain ⟨u, hu, hstring, hstart, -⟩ := h.strings [] cs hrest
  have written : u.isLayout = false := by rw [Token.isLayout, hstring]
  obtain ⟨hle, token⟩ := h.gives.written h.settled h.quiet u hu written
  rw [Text.byteLength_nil] at hstart
  have found := token (by omega)
  rw [hrest, tokenAt?_gap (by decide)] at found
  cases found

/-- The run goes on after an indentation. -/
theorem indented {width : Nat} {cursor : Cursor} (h : lexer.Clears ts last)
    (hs : lexer.Starts (some width) cursor)
    (hi : (lexer.atIndented cursor).indentTo width = (none, after)) : after.Clears ts last := by
  have same := indentTo_cursor (lexer.atIndented cursor) width
  have pending : (lexer.atIndented cursor).pending = [] := hs.pending
  have settled := indentTo_settled (settled_of_pending pending) width
  have still : (lexer.atIndented cursor).Quiet := h.quiet
  have quiet := indentTo_quiet still width
  rw [hi] at same settled quiet
  have hcursor : after.cursor = cursor := same
  have hnext := next_eq_of_scan (scan_of_indented hs hi)
  have nonempty : ts ≠ [] := by
    rintro rfl
    cases h.ended
  refine ⟨.of_next_eq hnext.symm h.gives nonempty, h.ended, settled, quiet, ?_⟩
  intro before rest hrest
  obtain ⟨gap, passes, -⟩ := hs.over
  rw [hcursor] at hrest ⊢
  have offset := passes.offset
  obtain ⟨u, hu, hstring, hstart, hend⟩ := h.strings (gap ++ before) rest
    (by rw [passes.rest, hrest, List.append_assoc])
  rw [Text.byteLength_append] at hstart hend
  exact ⟨u, hu, hstring, by omega, by omega⟩

/-- Tokens that wait come first. -/
theorem pending {ps : List Token} (h : lexer.Clears ts last) (hp : lexer.pending = ps)
    (hk : ∀ t ∈ ps, keepsLine t ∧ t.kind ≠ .eof) :
    ∃ rest, ts = ps ++ rest ∧ Clears { lexer with pending := [] } rest last := by
  induction ps generalizing lexer ts with
  | nil =>
    refine ⟨ts, rfl, ?_⟩
    rw [← hp]
    exact h
  | cons p ps ih =>
    obtain ⟨keeps, hk⟩ := List.forall_mem_cons.1 hk
    have waits := Finds.waiting hp
    rw [noteToken_of_keepsLine keeps.1] at waits
    cases ts with
    | nil => cases h.ended
    | cons t ts =>
      obtain ⟨between, hn, -⟩ := h.gives.uncons
      cases waits.next_eq.symm.trans hn
      obtain ⟨rest, hrest, clears⟩ := ih (h.step waits keeps.2) rfl hk
      exact ⟨rest, by rw [hrest]; rfl, clears⟩

end Clears

/-! ## The lines of a run -/

theorem Gives.unique {us : List Token} {last' : Lexer} (h : lexer.Gives ts last)
    (h' : lexer.Gives us last') (ht : Ended ts) (hu : Ended us) : ts = us := by
  induction h generalizing us with
  | nil => cases ht
  | cons hn _ ih =>
    cases h' with
    | nil => cases hu
    | cons hn' h' =>
      cases hn.symm.trans hn'
      cases ht with
      | last he =>
        cases hu with
        | last => rfl
        | cons hne => exact absurd he hne
      | cons hne ht =>
        cases hu with
        | last he => exact absurd he hne
        | cons _ hu => rw [ih h' ht hu]

theorem closes_closing (lexer : Lexer) (blocks : List Nat) : Closes blocks.length
    (blocks.map (fun _ => lexer.layoutToken .dedent) ++ [lexer.layoutToken .eof]) := by
  induction blocks with
  | nil => exact .eof rfl
  | cons _ blocks ih => exact .block rfl ih

/-- The end of a text in a line. -/
theorem finish_of_open (h : lexer.finish = (some (.ok t), after)) (hp : lexer.pending = [])
    (ho : lexer.lineOpen = true) :
    t.kind = .newline ∧
      ∃ us last, Closes lexer.blocks.length us ∧ (after.noteToken t).Gives us last := by
  obtain ⟨us, last, closing, given⟩ := finish_eq_closing h hp
  rw [closingTokens, if_pos ho, List.singleton_append] at closing
  obtain ⟨rfl, rfl⟩ := List.cons.inj closing
  exact ⟨rfl, _, last, closes_closing lexer lexer.blocks, given⟩

/-- The end of a text between lines. -/
theorem finish_of_closed (h : lexer.finish = (some (.ok t), after)) (hp : lexer.pending = [])
    (ho : lexer.lineOpen = false) :
    ∃ us last, Closes lexer.blocks.length (t :: us) ∧ (after.noteToken t).Gives us last := by
  obtain ⟨us, last, closing, given⟩ := finish_eq_closing h hp
  rw [closingTokens, if_neg (by simp [ho]), List.nil_append] at closing
  exact ⟨us, last, closing ▸ closes_closing lexer lexer.blocks, given⟩

/-- A lexer at the start of a line. -/
structure AtLine (lexer : Lexer) : Prop where
  pending : lexer.pending = []
  lineStart : lexer.lineStart = true
  depth : lexer.depth = 0
  lineOpen : lexer.lineOpen = false

/-- A lexer in a line after its first word. -/
structure AfterWord (lexer : Lexer) : Prop where
  pending : lexer.pending = []
  lineStart : lexer.lineStart = false
  lineOpen : lexer.lineOpen = true

/-- What is left of the tokens of a line and of those after it. -/
inductive LineEnds : (depth : Nat) → (blocks : List Nat) → List Token → Lexer → Prop
  | lineEnd {blocks t ts last} {l : Lexer} : t.kind = .newline → l.AtLine → l.blocks = blocks →
      l.Clears ts last → LineEnds 0 blocks (t :: ts) last
  | finished {depth blocks t ts last} : t.kind = .newline → Closes blocks.length ts →
      LineEnds depth blocks (t :: ts) last

theorem Reaches.depth {cursor : Cursor} {cs : List Char} (h : lexer.Reaches cursor)
    (hr : cursor.rest = '\n' :: cs) : lexer.depth = 0 := by
  have joined (comment : Bool) (rest : List Char) (offset line col : Nat) :
      (Cursor.blanks true comment rest offset line col).2.rest ≠ '\n' :: cs := by
    fun_induction Cursor.blanks true comment rest offset line col <;> simp_all
  by_contra hd
  have blanks := h.blanks
  rw [show decide (0 < lexer.depth) = true by simp; omega] at blanks
  refine joined false lexer.cursor.rest lexer.cursor.offset lexer.cursor.line lexer.cursor.col ?_
  rw [show Cursor.blanks _ _ _ _ _ _ = _ from blanks, hr]

/-- The run goes on after a word. -/
theorem Clears.word {cursor stop : Cursor} {kind : TokenKind} {text : List Char}
    (h : lexer.Clears (tokenBetween kind text cursor stop :: ts) last)
    (hs : lexer.lineStart = false) (hr : lexer.Reaches cursor)
    (htoken : tokenAt? cursor.rest = some (kind, text)) (hpasses : cursor.Passes text stop)
    (hscan : scanToken { lexer with cursor } =
      (some (.ok (tokenBetween kind text cursor stop)), lexer.passToken kind text stop)) :
    (tokenBetween kind text cursor stop).Spelled ∧
      AfterWord { lexer.passToken kind text stop with lineOpen := true } ∧
      (lexer.passToken kind text stop).depth =
        (tokenBetween kind text cursor stop).depthPast lexer.depth ∧
      Clears { lexer.passToken kind text stop with lineOpen := true } ts last := by
  refine ⟨⟨stop.rest, ?_⟩, ⟨hr.pending, hs, rfl⟩, ?_, ?_⟩
  · rw [tokenBetween, String.toList_ofList, ← hpasses.rest, htoken]
  · rw [Token.depthPast, tokenBetween, String.toList_ofList]
    rfl
  · refine h.step (.word hr htoken hpasses hscan) ?_
    rintro (rfl : kind = .eof)
    simpa using (tokenAt?_front htoken).2.2

/-- **The rest of a line:** words, and the end of the line or of the text. -/
theorem AfterWord.line (hl : lexer.AfterWord) (h : lexer.Clears ts last) :
    ∃ words rest, ts = words ++ rest ∧ (∀ w ∈ words, w.Spelled) ∧
      LineEnds (words.foldl Token.depthPast lexer.depth) lexer.blocks rest last := by
  induction ts generalizing lexer with
  | nil => cases h.ended
  | cons t ts ih =>
    obtain ⟨after, hn, gives⟩ := h.gives.uncons
    cases next_eq_ok_iff.1 hn with
    | waiting hp => cases hl.pending.symm.trans hp
    | indented hs | ended hs => cases hl.lineStart.symm.trans hs.lineStart
    | emptyLine _ _ hclosed => cases hl.lineOpen.symm.trans hclosed
    | @finished _ cursor _ l hr hnil hf =>
      obtain ⟨hkind, us, last', closes, given⟩ := finish_of_open hf hl.pending hl.lineOpen
      have ended : Ended ts := by
        cases h.ended with
        | last he => cases hkind.symm.trans he
        | cons _ he => exact he
      rw [gives.unique given ended closes.ended]
      exact ⟨[], _, rfl, by simp, .finished hkind closes⟩
    | @lineEnd _ cursor cs hr hline hopen =>
      have depth := hr.depth hline
      have next : (lexer.atNextLine cursor).AtLine := ⟨hr.pending, rfl, depth, rfl⟩
      have clears := h.step (.lineEnd hr hline hopen) (by simp [lineEndToken])
      refine ⟨[], _, rfl, by simp, ?_⟩
      rw [List.foldl_nil, depth]
      exact .lineEnd rfl next rfl clears
    | @word _ cursor kind text stop hr htoken hpasses hscan =>
      obtain ⟨spelled, after, depth, clears⟩ := h.word hl.lineStart hr htoken hpasses hscan
      obtain ⟨words, rest, hts, hwords, ends⟩ := ih after clears
      refine ⟨_ :: words, rest, congrArg _ hts, List.forall_mem_cons.2 ⟨spelled, hwords⟩, ?_⟩
      rw [List.foldl_cons, ← depth]
      exact ends

/-- An indentation stops where there is no blank. -/
theorem Starts.cons {width : Nat} {cursor : Cursor} (h : lexer.Starts (some width) cursor) :
    ∃ c cs, cursor.rest = c :: cs ∧ (c ∈ gapStarts → c = '\\') := by
  have stops (width : Nat) (comment : Bool) (rest : List Char) (offset line col w : Nat)
      (hw : (Cursor.indentation width comment rest offset line col).1 = some w) :
      ∃ c cs, (Cursor.indentation width comment rest offset line col).2.rest = c :: cs ∧
        (c ∈ gapStarts → c = '\\') := by
    fun_induction Cursor.indentation width comment rest offset line col with
    | case1 => cases hw
    | case9 width comment offset line col c cs => exact ⟨c, cs, rfl, by simp_all [gapStarts]⟩
    | case2 | case3 | case4 | case5 | case6 | case7 | case8 => simp_all
  have found := stops 0 false _ _ _ _ width (congrArg Prod.fst h.indentation)
  rwa [show Cursor.indentation _ _ _ _ _ _ = _ from h.indentation] at found

theorem Starts.head {width : Nat} {cursor : Cursor} (h : lexer.Starts (some width) cursor)
    (hb : ∀ cs, cursor.rest ≠ '\\' :: cs) : ∃ c cs, cursor.rest = c :: cs ∧ c ∉ gapStarts := by
  obtain ⟨c, cs, hrest, hc⟩ := h.cons
  refine ⟨c, cs, hrest, fun hgap => hb cs ?_⟩
  rw [hrest, hc hgap]

/-- **A line:** its first word, and the rest. -/
theorem Clears.line (h : lexer.Clears ts last) (hp : lexer.pending = [])
    (hs : lexer.lineStart = false) {c : Char} {cs : List Char} (hr : lexer.cursor.rest = c :: cs)
    (hc : c ∉ gapStarts) :
    ∃ words rest, ts = words ++ rest ∧ words ≠ [] ∧ (∀ w ∈ words, w.Spelled) ∧
      LineEnds (words.foldl Token.depthPast lexer.depth) lexer.blocks rest last := by
  cases ts with
  | nil => cases h.ended
  | cons t ts =>
    obtain ⟨after, hn, -⟩ := h.gives.uncons
    have here {cursor : Cursor} (hreach : lexer.Reaches cursor) : cursor.rest = c :: cs := by
      obtain ⟨stop, blanks, rest⟩ :=
        Cursor.skipBlanks_spaces (n := 0) (0 < lexer.depth) hr hc
      cases blanks.symm.trans hreach.blanks
      exact rest
    have notLine : c ≠ '\n' := by
      rintro rfl
      exact hc (by decide)
    cases next_eq_ok_iff.1 hn with
    | waiting hpending => cases hp.symm.trans hpending
    | indented hstart | ended hstart => cases hs.symm.trans hstart.lineStart
    | finished hreach hnil => cases hnil.symm.trans (here hreach)
    | lineEnd hreach hline | emptyLine hreach hline =>
      cases hline.symm.trans (here hreach)
      exact absurd rfl notLine
    | @word _ cursor kind text stop hreach htoken hpasses hscan =>
      obtain ⟨spelled, after, depth, clears⟩ := h.word hs hreach htoken hpasses hscan
      obtain ⟨words, rest, hts, hwords, ends⟩ := after.line clears
      refine ⟨_ :: words, rest, congrArg _ hts, by simp, List.forall_mem_cons.2 ⟨spelled, hwords⟩, ?_⟩
      rw [List.foldl_cons, ← depth]
      exact ends

/-- The layout tokens for an indentation lead to the blocks that are open after it. -/
theorem opens_of_indentTo {width : Nat} (hp : lexer.pending = [])
    (h : lexer.indentTo width = (none, after)) :
    Opens lexer.blocks.length after.pending after.blocks.length := by
  unfold indentTo at h
  rw [hp] at h
  split at h
  · cases h
    exact .block rfl
  · dsimp only at h
    split at h
    · cases h
      have parts := congrArg List.length
        (List.takeWhile_append_dropWhile (p := (width < ·)) (l := lexer.blocks))
      rw [List.length_append, Nat.add_comm] at parts
      have count : ((lexer.blocks.takeWhile (width < ·)).map
          fun _ => lexer.layoutToken .dedent).length = _ := List.length_map _
      rw [← parts, List.nil_append, ← count]
      refine .close fun t ht => ?_
      obtain ⟨_, _, rfl⟩ := List.mem_map.1 ht
      rfl
    · cases h

/-- A line in the canonical layout, before what is written after it. -/
theorem prints_line {level level' : Nat} {layout words rest : List Token} {blocks : List Nat}
    (ho : Opens level layout level') (hb : blocks.length = level') (hw : words ≠ [])
    (hs : ∀ w ∈ words, w.Spelled) (h : LineEnds (words.foldl Token.depthPast 0) blocks rest last)
    (ih : ∀ (l : Lexer) ts, l.AtLine → l.Clears ts last → ts.length < rest.length →
      Prints l.blocks.length ts (layoutText l.blocks.length true ts)) :
    Prints level (layout ++ (words ++ rest)) (layoutText level true (layout ++ (words ++ rest))) := by
  generalize hd : words.foldl Token.depthPast 0 = depth at h
  rw [layoutText_opens ho]
  cases h with
  | @lineEnd _ t ts _ l ht hline hblocks hclears =>
    have more := ih l ts hline hclears (Nat.lt_succ_self _)
    rw [hblocks, hb] at more
    rw [layoutText_line hs ht]
    exact .line ho hw (spells_layoutText level' true hs _) hd ht more
  | finished ht hc =>
    rw [hb] at hc
    rw [layoutText_line hs ht, layoutText_closes hc]
    by_cases h0 : depth = 0
    · exact .line ho hw (spells_layoutText level' true hs _) (hd.trans h0) ht (.done hc)
    · exact .unclosed ho hw (spells_layoutText level' true hs _) (by rwa [hd]) ht hc

/-- **The lines of a run are written in the canonical layout.** -/
theorem AtLine.prints (hl : lexer.AtLine) (h : lexer.Clears ts last) :
    Prints lexer.blocks.length ts (layoutText lexer.blocks.length true ts) := by
  induction hn : ts.length using Nat.strong_induction_on generalizing lexer ts with
  | _ n ih =>
    cases ts with
    | nil => cases h.ended
    | cons t ts =>
      obtain ⟨after, hnext, gives⟩ := h.gives.uncons
      cases next_eq_ok_iff.1 hnext with
      | waiting hp => cases hl.pending.symm.trans hp
      | finished hr | lineEnd hr | emptyLine hr | word hr =>
        exact absurd ⟨hl.lineStart, hl.depth⟩ hr.inLine
      | ended hs hf =>
        obtain ⟨us, last', closes, given⟩ := finish_of_closed hf hl.pending hl.lineOpen
        have closes : Closes lexer.blocks.length (t :: us) := closes
        rw [h.gives.unique (.cons hnext given) h.ended closes.ended, layoutText_closes closes]
        exact .done closes
      | @indented _ width cursor l _ _ hs hi _ =>
        have clears := h.indented hs hi
        have pending : (lexer.atIndented cursor).pending = [] := hs.pending
        have opens := opens_of_indentTo pending hi
        obtain ⟨rest, hts, clears'⟩ := clears.pending rfl opens.keepsLine
        have started := indentTo_lineStart (lexer.atIndented cursor) width
        have same := indentTo_cursor (lexer.atIndented cursor) width
        have depth : ((lexer.atIndented cursor).indentTo width).2.depth = lexer.depth :=
          indentTo_depth (lexer.atIndented cursor) width
        rw [hi] at started same depth
        have same : l.cursor = cursor := same
        obtain ⟨c, cs, hrest, hc⟩ := hs.head fun cs hb => clears.not_backslash (same ▸ hb)
        obtain ⟨words, rest', rfl, hw, spelled, ends⟩ :=
          clears'.line rfl started (same ▸ hrest) hc
        rw [show l.depth = 0 from depth.trans hl.depth] at ends
        rw [hts]
        refine prints_line opens rfl hw spelled ends fun l' ts' hline hclears hlt => ?_
        refine ih _ ?_ hline hclears rfl
        rw [← hn, hts]
        simp only [List.length_append]
        omega

/-- The characters of tokens are characters of the text. -/
theorem Gives.mem_rest (h : lexer.Gives ts last) (hs : lexer.Settled) {c : Char} :
    ∀ t ∈ ts, c ∈ t.text.toList → c ∈ lexer.cursor.rest := by
  induction h with
  | nil => simp
  | @cons l t l' ts l'' hn _ ih =>
    obtain ⟨stands, settled⟩ := (next_eq_ok_iff.1 hn).stands hs
    obtain ⟨middle, ⟨gap, hgap, -⟩, hpasses, -⟩ := stands.place
    rw [(hgap.trans hpasses).rest]
    refine List.forall_mem_cons.2 ⟨fun hc => by simp [hc], fun u hu hc => ?_⟩
    exact List.mem_append_right _ (ih settled u hu hc)

end Lexer

theorem mem_layoutText {level : Nat} {fresh : Bool} {ts : List Token} {c : Char}
    (h : c ∈ layoutText level fresh ts) : c = ' ' ∨ c = '\n' ∨ ∃ t ∈ ts, c ∈ t.text.toList := by
  induction ts generalizing level fresh with
  | nil => cases h
  | cons t ts ih =>
    have later : (∃ u ∈ ts, c ∈ u.text.toList) → ∃ u ∈ t :: ts, c ∈ u.text.toList := by
      rintro ⟨u, hu, hc⟩
      exact ⟨u, List.mem_cons_of_mem t hu, hc⟩
    rw [layoutText] at h
    split at h
    · exact (ih h).imp_right (Or.imp_right later)
    · exact (ih h).imp_right (Or.imp_right later)
    · rcases List.mem_cons.1 h with rfl | h
      · exact .inr (.inl rfl)
      · exact (ih h).imp_right (Or.imp_right later)
    · exact (ih h).imp_right (Or.imp_right later)
    all_goals
      rcases List.mem_append.1 h with h | h
      · exact .inl (List.eq_of_mem_replicate h)
      rcases List.mem_append.1 h with h | h
      · exact .inr (.inr ⟨t, List.mem_cons_self, h⟩)
      · exact (ih h).imp_right (Or.imp_right later)

namespace Source

/-- Every backslash in the text of a source lies inside a string. -/
def BackslashesInStrings (source : Source) (ts : List Token) : Prop :=
  ∀ before after, source.chars = before ++ '\\' :: after →
    ∃ t ∈ ts, t.kind = .string ∧ t.span.start ≤ Text.byteLength before ∧
      Text.byteLength before < t.span.stop

instance (source : Source) (ts : List Token) : Decidable (source.BackslashesInStrings ts) :=
  decidable_of_iff (∀ i < source.chars.length, source.chars[i]? = some '\\' →
      ∃ t ∈ ts, t.kind = .string ∧ t.span.start ≤ Text.byteLength (source.chars.take i) ∧
        Text.byteLength (source.chars.take i) < t.span.stop) <| by
    refine ⟨fun h before after heq => ?_, fun h i hi hc => ?_⟩
    · have found := h before.length
      rw [heq] at found
      simpa using found
    · obtain ⟨_, hget⟩ := List.getElem?_eq_some_iff.1 hc
      refine h _ (source.chars.drop (i + 1)) ?_
      rw [← hget, ← List.drop_eq_getElem_cons, List.take_append_drop]

/-- Tokens in the canonical layout. -/
def ofTokens (file : String) (ts : List Token) : Source :=
  ⟨file, String.ofList (layoutText 0 true ts)⟩

/-- **The canonical layout has the same tokens.** -/
theorem relexed_alike {source : Source} {ts : List Token} (h : source.Lexes ts)
    (hb : source.BackslashesInStrings ts) (file : String) :
    ∃ us, (ofTokens file ts).Lexes us ∧ List.Forall₂ Token.Alike ts us := by
  obtain ⟨ended, last, gives⟩ := h
  have settled : (Lexer.start source).Settled := Lexer.settled_of_pending rfl
  have text : (ofTokens file ts).chars = layoutText 0 true ts := String.toList_ofList
  have clears : (Lexer.start source).Clears ts last := by
    refine ⟨gives, ended, settled, Lexer.start_quiet source, fun before after hrest => ?_⟩
    obtain ⟨more, hmore, -⟩ := source.chars_eq
    have offset : (Lexer.start source).cursor.offset = 0 := rfl
    rw [offset, Nat.zero_add]
    refine hb before (after ++ more) ?_
    rw [hmore, show source.readChars = _ from hrest, List.append_assoc]
    rfl
  have prints := Lexer.AtLine.prints ⟨rfl, rfl, rfl, rfl⟩ clears
  refine Prints.lexes (text ▸ prints) fun hnul => ?_
  rw [text] at hnul
  rcases mem_layoutText hnul with hc | hc | ⟨t, ht, hc⟩
  · cases hc
  · cases hc
  · have read := gives.mem_rest settled t ht hc
    simpa using List.mem_takeWhile_imp read

/-- A program in a layout of its own, with brackets open at its end. -/
def crookedLayout : Source where
  file := "main.py"
  text := "if x :# a\n\n\t while 1.e-5<2 :\n\t\ty=rb'\\n' ;z = \"\"\"\n\"\"\"\n\t f(1,\n# b\n  .5 )\n"
    ++ ")\n[ x**-0x1E-1\n"

theorem crookedLayout_relexed : ∃ ts us, crookedLayout.Lexes ts ∧ ts.length = 40 ∧
    crookedLayout.BackslashesInStrings ts ∧ (ofTokens "canonical.py" ts).Lexes us ∧
    List.Forall₂ Token.Alike ts us := by
  have found : (do
      let ts ← (Lexer.start crookedLayout).tokens? 60
      return decide (ts.length = 40 ∧ crookedLayout.BackslashesInStrings ts)) = some true := by
    decide +kernel
  cases hts : (Lexer.start crookedLayout).tokens? 60 with
  | none => rw [hts] at found; cases found
  | some ts =>
    rw [hts] at found
    obtain ⟨length, strings⟩ := of_decide_eq_true (Option.some.inj found)
    have lexes : crookedLayout.Lexes ts := Lexer.gives_of_tokens hts
    obtain ⟨us, relexes, alike⟩ := relexed_alike lexes strings "canonical.py"
    exact ⟨ts, us, lexes, length, strings, relexes, alike⟩

end Source

end SdkUsage
