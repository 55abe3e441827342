/-
Two lexers on the two texts of one program, with and without carriage returns before the line
feeds. They are kept in step (`Twin`) through one scan (`scan_twin`), one token (`next_twin`)
and a whole run, up to the first string that is broken over lines without triple quotes.
-/
import Mathlib.Data.List.Forall2
import SdkUsage.Proofs.Token.Cover
import SdkUsage.Proofs.Token.Returns

namespace SdkUsage

variable {cs : List Char} {c : Char} {a b : Cursor}

namespace Cursor

variable {a b : Cursor}

/-- A NUL character ends both texts. -/
theorem start_twin (text : List Char) : (start text).Twin (start (withReturns text)) :=
  ⟨takeWhile_withReturns text (by decide), rfl⟩

theorem Twin.skipBlanks (h : a.Twin b) (ha : '\r' ∉ a.rest) (joined : Bool) :
    (b.skipBlanks joined).1 = (a.skipBlanks joined).1 ∧
      (a.skipBlanks joined).2.Beside (b.skipBlanks joined).2 ∧
      '\r' ∉ (a.skipBlanks joined).2.rest := by
  obtain ⟨same, beside⟩ := blanks_twin joined false ha a.offset a.line a.col b.offset b.col
  obtain ⟨gap, hgap, -⟩ := blanks_skips joined false a.rest a.offset a.line a.col
  unfold Cursor.skipBlanks
  rw [h.rest, h.line]
  exact ⟨same, beside, fun hm => ha (hgap ▸ List.mem_append_right gap hm)⟩

theorem Twin.readIndentation (h : a.Twin b) (ha : '\r' ∉ a.rest) :
    b.readIndentation.1 = a.readIndentation.1 ∧
      a.readIndentation.2.Twin b.readIndentation.2 ∧ '\r' ∉ a.readIndentation.2.rest := by
  obtain ⟨same, twin⟩ := indentation_twin 0 false a.rest a.offset a.line a.col b.offset b.col
  obtain ⟨gap, hgap, -⟩ := indentation_skips 0 false a.rest a.offset a.line a.col
  unfold Cursor.readIndentation
  rw [h.rest, h.line]
  exact ⟨same, twin, fun hm => ha (hgap ▸ List.mem_append_right gap hm)⟩

theorem Beside.nextLine (h : a.Beside b) (hr : a.rest = '\n' :: cs) :
    a.nextLine.Twin b.nextLine := by
  have hr' : b.rest = '\n' :: withReturns cs := by rw [h.rest, hr]; rfl
  refine ⟨?_, ?_⟩
  · rw [rest_nextLine, rest_nextLine, hr, hr']
    rfl
  · simp [Cursor.nextLine, hr, hr', h.line]

/-! ## Lines -/

/-- The number of the last line of the text. -/
def lastLine (cursor : Cursor) : Nat := cursor.line + cursor.rest.count '\n'

theorem lastLine_stringBody {quote : Char} (hq : quote ≠ '\n') (triple : Bool) (rest : List Char)
    (offset line col : Nat) :
    (stringBody quote triple rest offset line col).2.lastLine = line + rest.count '\n' := by
  fun_induction stringBody quote triple rest offset line col with
  | case1 | case2 => rfl
  | case8 offset line col cs htriple hclose hescape hline =>
    obtain ⟨after, rfl⟩ := List.isPrefixOf_iff_prefix.1 hclose
    simp [lastLine, hq]
  | _ => simp_all [lastLine] <;> omega

theorem lastLine_step {cursor : Cursor} (h : cursor.rest = c :: cs) (hc : c ≠ '\n') :
    cursor.step.lastLine = cursor.lastLine := by
  simp [step, h, lastLine, hc]

theorem lastLine_advance {cursor : Cursor} {text after : List Char} (h : cursor.rest = text ++ after)
    (ht : '\n' ∉ text) : (cursor.advance text.length).lastLine = cursor.lastLine := by
  induction text generalizing cursor with
  | nil => rfl
  | cons c cs ih =>
    rw [List.mem_cons, not_or] at ht
    have rest : cursor.step.rest = cs ++ after := by rw [rest_step, h]; rfl
    exact (ih rest ht.2).trans (lastLine_step h (Ne.symm ht.1))

theorem lastLine_readString {cursor : Cursor} (h : startsQuote cursor.rest = true) :
    cursor.readString.2.lastLine = cursor.lastLine := by
  obtain ⟨c, cs, hr⟩ : ∃ c cs, cursor.rest = c :: cs := by
    cases hr : cursor.rest with
    | nil =>
      rw [hr] at h
      cases h
    | cons c cs => exact ⟨c, cs, rfl⟩
  rw [hr] at h
  have hc : c ≠ '\n' := by
    rcases quote_of_startsQuote h with rfl | rfl <;> decide
  have peek : cursor.peek = c := by rw [Cursor.peek, hr]; rfl
  unfold readString
  dsimp only
  rw [peek, lastLine_stringBody hc]
  split
  · next ht =>
    rw [hr] at ht
    rcases cs with _ | ⟨d, _ | ⟨e, cs⟩⟩
    · cases ht
    · cases ht
    · have quotes : c = d ∧ c = e := by simpa [isTriple] using ht
      obtain ⟨rfl, rfl⟩ := quotes
      exact @lastLine_advance cursor [c, c, c] cs hr (by simpa using Ne.symm hc)
  · exact @lastLine_advance cursor [c] cs hr (by simpa using Ne.symm hc)

end Cursor

/-- Tokens of the two texts: of one kind, on one line, and with one text, the carriage returns
in a string apart. -/
structure Token.Twin (t u : Token) : Prop where
  kind : u.kind = t.kind
  line : u.span.line = t.span.line
  text : t.kind ≠ .string → u.text = t.text
  string : t.kind = .string → u.text = String.ofList (withReturns t.text.toList)

/-- A string of more than one line without triple quotes. -/
def Token.BreaksLine (token : Token) : Prop := breaksLine token.kind token.text.toList = true

instance (token : Token) : Decidable token.BreaksLine :=
  inferInstanceAs (Decidable (_ = true))

theorem Token.not_breaksLine {token : Token} (h : token.kind ≠ .string) : ¬ token.BreaksLine := by
  simp [BreaksLine, breaksLine, h]

namespace Lexer

variable {l l' : Lexer}

/-- Scanning a token keeps count of the lines. -/
theorem lastLine_scanToken (hr : l.cursor.rest = c :: cs) (hc : c ≠ '\n') :
    l.scanToken.2.cursor.lastLine = l.cursor.lastLine := by
  obtain ⟨word, after, rest, line, hs | ⟨hq, hs⟩⟩ := scanToken_cursor hr hc
  · rw [hs, Cursor.lastLine_advance rest line]
  · have passed := (Cursor.advance_passes rest).rest
    rw [rest] at passed
    rw [List.append_cancel_left passed] at hq
    rw [hs, Cursor.lastLine_readString hq, Cursor.lastLine_advance rest line]

/-! ## One scan -/

/-- Lexers on the two texts, in step. -/
structure Twin (l l' : Lexer) : Prop where
  clean : '\r' ∉ l.cursor.rest
  cursor : l.cursor.Twin l'.cursor
  blocks : l'.blocks = l.blocks
  pending : List.Forall₂ Token.Twin l.pending l'.pending
  depth : l'.depth = l.depth
  lineStart : l'.lineStart = l.lineStart
  lineOpen : l'.lineOpen = l.lineOpen

/-- What scans of the two texts give: nothing, tokens that are alike, or errors; and where
the one text has a string that breaks its line, an error in the other. -/
inductive Scan.Twin : Scan → Scan → Prop
  | nothing {l l' : Lexer} : l.Twin l' → Scan.Twin (none, l) (none, l')
  | token {t u : Token} {l l' : Lexer} : t.Twin u → ¬ t.BreaksLine → l.Twin l' →
      Scan.Twin (some (.ok t), l) (some (.ok u), l')
  | error {e e' : SyntaxError} {l l' : Lexer} :
      Scan.Twin (some (.error e), l) (some (.error e'), l')
  | broken {t : Token} {e : SyntaxError} {l l' : Lexer} : t.BreaksLine →
      Scan.Twin (some (.ok t), l) (some (.error e), l')

theorem Twin.layoutToken (h : l.Twin l') (kind : TokenKind) (hk : kind ≠ .string) :
    (l.layoutToken kind).Twin (l'.layoutToken kind) :=
  ⟨rfl, h.cursor.line, fun _ => rfl, fun hs => absurd hs hk⟩

/-- A layout token for each block. -/
theorem Twin.layoutTokens (h : l.Twin l') (kind : TokenKind) (hk : kind ≠ .string)
    (widths : List Nat) :
    List.Forall₂ Token.Twin (widths.map fun _ => l.layoutToken kind)
      (widths.map fun _ => l'.layoutToken kind) := by
  induction widths with
  | nil => exact .nil
  | cons w widths ih => exact .cons (h.layoutToken kind hk) ih

theorem finish_twin (h : l.Twin l') : Scan.Twin l.finish l'.finish := by
  have closed : Twin { l with blocks := [], lineOpen := false }
      { l' with blocks := [], lineOpen := false } :=
    { h with blocks := rfl, lineOpen := rfl }
  have eof : (l.layoutToken .eof).Twin (l'.layoutToken .eof) := h.layoutToken .eof (by decide)
  have dedents := h.layoutTokens .dedent (by decide) l.blocks
  have newline : (l.layoutToken .newline).Twin (l'.layoutToken .newline) :=
    h.layoutToken .newline (by decide)
  have plain (kind : TokenKind) (hk : kind ≠ .string) : ¬ (l.layoutToken kind).BreaksLine :=
    Token.not_breaksLine hk
  unfold finish
  dsimp only
  rw [h.lineOpen, h.blocks]
  cases hopen : l.lineOpen with
  | true =>
    refine .token newline (plain _ (by decide)) { closed with pending := ?_ }
    exact List.rel_append dedents (.cons eof .nil)
  | false =>
    cases hblocks : l.blocks with
    | nil => exact .token eof (plain _ (by decide)) closed
    | cons w widths =>
      rw [hblocks] at dedents
      obtain ⟨first, rest⟩ := List.forall₂_cons.1 dedents
      refine .token first (plain _ (by decide)) { closed with pending := ?_ }
      exact List.rel_append rest (.cons eof .nil)

theorem indentTo_twin (h : l.Twin l') (width : Nat) :
    (l'.indentTo width).1.isSome = (l.indentTo width).1.isSome ∧
      (l.indentTo width).2.Twin (l'.indentTo width).2 := by
  unfold indentTo Lexer.width
  rw [h.blocks]
  split
  · refine ⟨rfl, { h with blocks := rfl, pending := ?_ }⟩
    exact List.rel_append h.pending (.cons (h.layoutToken .indent (by decide)) .nil)
  · have pending := List.rel_append h.pending
      (h.layoutTokens .dedent (by decide) (l.blocks.takeWhile (width < ·)))
    dsimp only
    split
    · exact ⟨rfl, { h with blocks := rfl, pending := pending }⟩
    · exact ⟨rfl, { h with blocks := rfl, pending := pending }⟩

theorem scanLineEnd_twin (h : l.Twin l') (hab : a.Beside b) (ha : '\r' ∉ a.rest)
    (hr : a.rest = '\n' :: cs) :
    Scan.Twin (scanLineEnd { l with cursor := a }) (scanLineEnd { l' with cursor := b }) := by
  have clean : '\r' ∉ a.nextLine.rest := by
    rw [Cursor.rest_nextLine]
    exact fun hm => ha (List.mem_of_mem_drop hm)
  have after : Twin { l with cursor := a.nextLine, lineStart := true }
      { l' with cursor := b.nextLine, lineStart := true } :=
    { h with clean := clean, cursor := hab.nextLine hr, lineStart := rfl }
  unfold scanLineEnd
  dsimp only
  by_cases hopen : l.lineOpen = true
  · rw [if_pos hopen, if_pos (h.lineOpen.trans hopen)]
    refine .token ⟨rfl, hab.line, fun _ => rfl, fun hs => ?_⟩ (Token.not_breaksLine ?_) after
    · cases hs
    · simp
  · rw [if_neg hopen, if_neg (by rwa [h.lineOpen])]
    exact .nothing after

/-- A token that does not break its line is scanned in both texts. -/
theorem scanToken_kept (h : l.Twin l') (hab : a.Twin b) (ha : '\r' ∉ a.rest) (hr : a.rest = c :: cs)
    (hc : c ≠ '\n') {kind : TokenKind} {text : List Char} (ht : tokenAt? a.rest = some (kind, text))
    (hb : ¬ breaksLine kind text = true) :
    Scan.Twin (scanToken { l with cursor := a }) (scanToken { l' with cursor := b }) := by
  have hr' : b.rest = c :: withReturns cs := by rw [hab.rest, hr, withReturns_cons hc]
  have ht' : tokenAt? b.rest = some (kind, withReturns text) := by
    rw [hab.rest, tokenAt?_withReturns, ht, Option.bind_some, keptToken, if_neg hb]
  obtain ⟨last, passes, hs⟩ := scanToken_of_tokenAt { l with cursor := a } ht
  obtain ⟨last', passes', hs'⟩ := scanToken_of_tokenAt { l' with cursor := b } ht'
  have rest : last'.rest = withReturns last.rest := by
    have parts : withReturns text ++ last'.rest = withReturns text ++ withReturns last.rest := by
      rw [← withReturns_append, ← passes.rest, ← passes'.rest, hab.rest]
    exact List.append_cancel_left parts
  have line : last'.line = last.line := by
    have lines := lastLine_scanToken (l := { l with cursor := a }) hr hc
    have lines' := lastLine_scanToken (l := { l' with cursor := b }) hr' hc
    rw [hs] at lines
    rw [hs'] at lines'
    simp only [passToken, Cursor.lastLine, rest, hab.rest, count_withReturns, hab.line]
      at lines lines'
    omega
  have clean : '\r' ∉ last.rest := fun hm => ha (passes.rest ▸ List.mem_append_right text hm)
  have plain : kind ≠ .string → withReturns text = text := fun hk =>
    withReturns_eq_self (not_mem_of_tokenAt? ht hk)
  have depth : (l'.passToken kind (withReturns text) last').depth = (l.passToken kind text last).depth := by
    unfold passToken
    dsimp only
    rw [h.depth]
    split
    · next hk => rw [plain (by rw [hk]; decide)]
    · rfl
  rw [hs, hs']
  refine .token ⟨rfl, hab.line, fun hk => ?_, fun _ => ?_⟩ ?_
    { h with clean := clean, cursor := ⟨rest, line⟩, depth := depth }
  · show String.ofList (withReturns text) = String.ofList text
    rw [plain hk]
  · show String.ofList (withReturns text) = String.ofList (withReturns (String.ofList text).toList)
    rw [String.toList_ofList]
  · simpa [Token.BreaksLine, tokenBetween] using hb

/-- Tokens scanned before the same character. -/
theorem scanToken_twin (h : l.Twin l') (hab : a.Beside b) (ha : '\r' ∉ a.rest) :
    Scan.Twin (scanToken { l with cursor := a }) (scanToken { l' with cursor := b }) := by
  cases hr : a.rest with
  | nil =>
    have hr' : b.rest = [] := by rw [hab.rest, hr]; rfl
    have ended : Twin { l with cursor := a } { l' with cursor := b } :=
      { h with clean := ha, cursor := ⟨by rw [hr, hr']; rfl, hab.line⟩ }
    have finished := finish_twin ended
    simp only [scanToken, hr, hr']
    exact finished
  | cons c cs =>
    have hr' : b.rest = c :: withReturns cs := by rw [hab.rest, hr]; rfl
    by_cases hc : c = '\n'
    · subst hc
      have ended := scanLineEnd_twin h hab ha hr
      simp only [scanToken, hr, hr', if_true]
      exact ended
    · have twin : a.Twin b := ⟨by rw [hr, hr', withReturns_cons hc], hab.line⟩
      have same := tokenAt?_withReturns a.rest
      rw [← twin.rest] at same
      cases ht : tokenAt? a.rest with
      | none =>
        rw [ht] at same
        obtain ⟨e, -, m, hs⟩ := scanToken_of_none { l with cursor := a } hr hc ht
        obtain ⟨e', -, m', hs'⟩ := scanToken_of_none { l' with cursor := b } hr' hc same
        rw [hs, hs']
        exact .error
      | some found =>
        obtain ⟨kind, text⟩ := found
        by_cases hb : breaksLine kind text = true
        · rw [ht, Option.bind_some, keptToken, if_pos hb] at same
          obtain ⟨last, -, hs⟩ := scanToken_of_tokenAt { l with cursor := a } ht
          obtain ⟨e, -, m, hs'⟩ := scanToken_of_none { l' with cursor := b } hr' hc same
          rw [hs, hs']
          refine .broken ?_
          simpa [Token.BreaksLine, tokenBetween] using hb
        · exact scanToken_kept h twin ha hr hc ht hb

theorem scanInLine_twin (h : l.Twin l') : Scan.Twin l.scanInLine l'.scanInLine := by
  obtain ⟨same, beside, clean⟩ := h.cursor.skipBlanks h.clean (0 < l.depth)
  have brackets : decide (0 < l'.depth) = decide (0 < l.depth) := by rw [h.depth]
  unfold scanInLine
  dsimp only
  rw [brackets, same]
  split
  · exact scanToken_twin h beside clean
  · exact .error

theorem givePending_twin (h : l.Twin l') {other other' : Lexer → Scan}
    (ho : Scan.Twin (other l) (other' l')) (hq : l.Quiet) :
    Scan.Twin (l.givePending other) (l'.givePending other') := by
  have pending := h.pending
  unfold givePending
  cases hp : l.pending with
  | nil =>
    rw [hp] at pending
    rw [List.forall₂_nil_left_iff.1 pending]
    exact ho
  | cons t ts =>
    rw [hp] at pending
    obtain ⟨u, us, first, rest, hp'⟩ := List.forall₂_cons_left_iff.1 pending
    rw [hp']
    have layout : t.kind ≠ .string := by
      intro hk
      have := hq t (by simp [hp])
      simp [Token.isLayout, hk] at this
    exact .token first (Token.not_breaksLine layout) { h with pending := rest }

theorem scanAtLineStart_twin (h : l.Twin l') (hq : l.Quiet) :
    Scan.Twin l.scanAtLineStart l'.scanAtLineStart := by
  obtain ⟨same, twin, clean⟩ := h.cursor.readIndentation h.clean
  have indented : (l.atIndented l.cursor.readIndentation.2).Twin
      (l'.atIndented l'.cursor.readIndentation.2) :=
    { h with clean := clean, cursor := twin, lineStart := rfl }
  unfold scanAtLineStart
  dsimp only
  rw [same]
  cases l.cursor.readIndentation.1 with
  | none => exact finish_twin indented
  | some width =>
    have quiet : (l.atIndented l.cursor.readIndentation.2).Quiet := hq
    obtain ⟨failed, after⟩ := indentTo_twin indented width
    have quiet := indentTo_quiet quiet width
    rw [atIndented, atIndented] at failed after
    rw [atIndented] at quiet
    cases hi : ({ l with cursor := l.cursor.readIndentation.2, lineStart := false } : Lexer).indentTo
        width with
    | mk error n =>
      cases hi' : ({ l' with cursor := l'.cursor.readIndentation.2, lineStart := false }
          : Lexer).indentTo width with
      | mk error' n' =>
        rw [hi, hi'] at failed after
        rw [hi] at quiet
        simp only [hi, hi']
        cases error with
        | none =>
          cases error' with
          | none => exact givePending_twin after (scanInLine_twin after) quiet
          | some => cases failed
        | some =>
          cases error' with
          | none => cases failed
          | some => exact .error

theorem scan_twin (h : l.Twin l') (hq : l.Quiet) : Scan.Twin l.scan l'.scan := by
  unfold scan
  refine givePending_twin h ?_ hq
  rw [h.lineStart, h.depth]
  split
  · exact scanAtLineStart_twin h hq
  · exact scanInLine_twin h

/-! ## The next token -/

theorem noteToken_twin (h : l.Twin l') {t u : Token} (ht : t.Twin u) :
    (l.noteToken t).Twin (l'.noteToken u) := by
  unfold noteToken
  rw [ht.kind]
  split
  · exact { h with lineOpen := rfl }
  · exact h
  · exact h
  · exact h
  · exact { h with lineOpen := rfl }

/-- **Lexers in step give the next tokens in step.** -/
theorem next_twin (h : l.Twin l') (hq : l.Quiet) :
    Scan.Twin (some l.next.1, l.next.2) (some l'.next.1, l'.next.2) := by
  induction hn : l.cursor.rest.length using Nat.strongRecOn generalizing l l' with
  | ind n ih =>
    have scanned := scan_twin h hq
    have found := scan_found l
    rcases hs : l.scan with ⟨result, after⟩
    rcases hs' : l'.scan with ⟨result', after'⟩
    rw [hs] at found
    rw [hs, hs'] at scanned
    cases scanned with
    | nothing twin =>
      rw [next_of_scan_none hs, next_of_scan_none hs']
      obtain ⟨fewer, pending, -⟩ := found.nothing rfl
      exact ih after.cursor.rest.length (hn ▸ fewer) twin (quiet_of_pending pending) rfl
    | token same hb twin =>
      rw [next_of_scan_some hs, next_of_scan_some hs']
      exact .token same hb (noteToken_twin twin same)
    | error =>
      simp only [next, hs, hs']
      exact .error
    | broken hb =>
      rw [next_of_scan_some hs]
      simp only [next, hs']
      exact .broken hb

/-! ## Runs -/

/-- A token of the one text is one of the other, or breaks its line and is an error there. -/
theorem Twin.next_ok (h : l.Twin l') (hq : l.Quiet) {t : Token} {m : Lexer}
    (hn : l.next = (.ok t, m)) :
    (¬ t.BreaksLine ∧ ∃ u m', l'.next = (.ok u, m') ∧ t.Twin u ∧ m.Twin m') ∨
      (t.BreaksLine ∧ ∃ e m', l'.next = (.error e, m')) := by
  have next := next_twin h hq
  rcases hn' : l'.next with ⟨result, m'⟩
  rw [hn, hn'] at next
  cases next with
  | token same hb twin => exact .inl ⟨hb, _, _, rfl, same, twin⟩
  | broken hb => exact .inr ⟨hb, _, _, rfl⟩

/-- An error in the one text is one in the other. -/
theorem Twin.next_error (h : l.Twin l') (hq : l.Quiet) {e : SyntaxError} {m : Lexer}
    (hn : l.next = (.error e, m)) : ∃ e' m', l'.next = (.error e', m') := by
  have next := next_twin h hq
  rcases hn' : l'.next with ⟨result, m'⟩
  rw [hn, hn'] at next
  cases next with
  | error => exact ⟨_, _, rfl⟩

theorem Stops.of_next {e : SyntaxError} (hn : l.next = (.error e, l')) : l.Stops :=
  ⟨[], l, e, l', by simp, .nil l, hn⟩

/-- Where the one text has an error, the other has one. -/
theorem Twin.stops (h : l.Twin l') (hq : l.Quiet) (hs : l.Stops) : l'.Stops := by
  obtain ⟨ts, before, e, after, kinds, gives, error⟩ := hs
  induction gives generalizing l' with
  | nil l =>
    obtain ⟨e', m', hn'⟩ := h.next_error hq error
    exact .of_next hn'
  | @cons l t m ts before hn _ ih =>
    rw [List.forall_mem_cons] at kinds
    rcases h.next_ok hq hn with ⟨-, u, m', hn', same, twin⟩ | ⟨-, e', m', hn'⟩
    · exact (ih twin (next_fair hq hn).1 kinds.2 error).cons hn' (same.kind ▸ kinds.1)
    · exact .of_next hn'

/-- Where the one text is cut into tokens, the other is cut into tokens like them, or the one
has a token that breaks its line and the other an error. -/
theorem Twin.gives (h : l.Twin l') (hq : l.Quiet) {ts : List Token} {last : Lexer}
    (hg : l.Gives ts last) (he : Ended ts) :
    ((∀ t ∈ ts, ¬ t.BreaksLine) ∧
        ∃ us last', Ended us ∧ l'.Gives us last' ∧ List.Forall₂ Token.Twin ts us) ∨
      ((∃ t ∈ ts, t.BreaksLine) ∧ l'.Stops) := by
  induction hg generalizing l' with
  | nil => cases he
  | @cons l t m ts last hn _ ih =>
    rcases h.next_ok hq hn with ⟨hb, u, m', hn', same, twin⟩ | ⟨hb, e', m', hn'⟩
    · cases he with
      | last hk =>
        refine .inl ⟨by simpa using hb, [u], m', .last (same.kind.trans hk), ?_, .cons same .nil⟩
        exact .cons hn' (.nil m')
      | cons hk he =>
        have hk' : u.kind ≠ .eof := same.kind ▸ hk
        rcases ih twin (next_fair hq hn).1 he with
          ⟨whole, us, last', ended, gives, alike⟩ | ⟨⟨v, hv, broken⟩, stops⟩
        · exact .inl ⟨List.forall_mem_cons.2 ⟨hb, whole⟩, u :: us, last', .cons hk' ended,
            .cons hn' gives, .cons same alike⟩
        · exact .inr ⟨⟨v, List.mem_cons_of_mem _ hv, broken⟩, stops.cons hn' hk'⟩
    · exact .inr ⟨⟨t, List.mem_cons_self, hb⟩, .of_next hn'⟩

end Lexer

namespace Source

/-- A source with a carriage return before every line feed. -/
def withReturns (source : Source) : Source :=
  { source with text := String.ofList (SdkUsage.withReturns source.chars) }

theorem chars_withReturns (source : Source) :
    source.withReturns.chars = SdkUsage.withReturns source.chars :=
  String.toList_ofList

theorem start_twin {source : Source} (h : '\r' ∉ source.chars) :
    (Lexer.start source).Twin (Lexer.start source.withReturns) := by
  unfold Lexer.start
  rw [chars_withReturns]
  exact ⟨fun hm => h ((List.takeWhile_prefix _).subset hm), Cursor.start_twin source.chars, rfl, .nil,
    rfl, rfl, rfl⟩

/-- **A carriage return before every line feed** makes no text valid, and keeps kind and line
of every token of a valid one, and its text, the carriage returns in strings apart; unless it
has a string of more than one line without triple quotes: then it is no longer valid. -/
theorem returns_keep_tokens (source : Source) (h : '\r' ∉ source.chars) :
    (source.Fails → source.withReturns.Fails) ∧
      ∀ ts, source.Lexes ts →
        ((∀ t ∈ ts, ¬ t.BreaksLine) ∧
            ∃ us, source.withReturns.Lexes us ∧ List.Forall₂ Token.Twin ts us) ∨
          ((∃ t ∈ ts, t.BreaksLine) ∧ source.withReturns.Fails) := by
  have twin := start_twin h
  have quiet := Lexer.start_quiet source
  refine ⟨twin.stops quiet, fun ts hts => ?_⟩
  obtain ⟨ended, last, gives⟩ := hts
  rcases twin.gives quiet gives ended with ⟨whole, us, last', ended', gives', alike⟩ | broken
  · exact .inl ⟨whole, us, ⟨ended', last', gives'⟩, alike⟩
  · exact .inr broken

/-- A text with blocks, joined lines, lines inside brackets, comments, and a string over lines
with triple quotes and a line feed that is escaped. -/
def quotedLines : Source where
  file := "main.py"
  text := "if a: # c\n\t\n  b = x\\\n  + (1, # d\n\n rb\"\"\"u\\\nv'\n\"\"\")\n\nelse:\n  c"

theorem quotedLines_keep_tokens : '\r' ∉ quotedLines.chars ∧
    ∃ ts us, ts.length = 24 ∧ quotedLines.Lexes ts ∧ quotedLines.withReturns.Lexes us ∧
      List.Forall₂ Token.Twin ts us := by
  have clean : '\r' ∉ quotedLines.chars := by decide +kernel
  have found : ((Lexer.start quotedLines).tokens? 60).map
      (fun ts => (ts.length, ts.all fun t => !breaksLine t.kind t.text.toList)) =
        some (24, true) := by
    decide +kernel
  obtain ⟨ts, hts, heq⟩ := Option.map_eq_some_iff.1 found
  obtain ⟨length, whole⟩ := Prod.mk.inj heq
  have lexes : quotedLines.Lexes ts := Lexer.gives_of_tokens hts
  rcases (returns_keep_tokens quotedLines clean).2 ts lexes with
    ⟨-, us, lexes', alike⟩ | ⟨⟨t, ht, broken⟩, -⟩
  · exact ⟨clean, ts, us, length, lexes, lexes', alike⟩
  · have := List.all_eq_true.1 whole t ht
    rw [show breaksLine t.kind t.text.toList = true from broken] at this
    cases this

/-- A string with an escaped line feed and no triple quotes. -/
def brokenString : Source where
  file := "main.py"
  text := "'a\\\nb'\n"

/-- It is lost with a carriage return before the line feed. -/
theorem brokenString_loses_token : '\r' ∉ brokenString.chars ∧
    (∃ ts, brokenString.Lexes ts ∧ ts.map Token.kind = [.string, .newline, .eof]) ∧
      brokenString.withReturns.Fails := by
  have found : ((Lexer.start brokenString).tokens? 9).map (·.map Token.kind) =
      some [.string, .newline, .eof] := by
    decide +kernel
  obtain ⟨ts, hts, kinds⟩ := Option.map_eq_some_iff.1 found
  have fails : (Lexer.start brokenString.withReturns).next.1.toOption = none := by
    rw [Lexer.start, chars_withReturns]
    decide +kernel
  refine ⟨by decide +kernel, ⟨ts, Lexer.gives_of_tokens hts, kinds⟩, ?_⟩
  rcases hn : (Lexer.start brokenString.withReturns).next with ⟨result, after⟩
  rw [hn] at fails
  cases result with
  | error e => exact .of_next hn
  | ok t => cases fails

end Source

end SdkUsage
