/-
A text behind another. If a text consists of whole lines, is cut into tokens and leaves no
bracket open, then with another text behind it it is cut into the same tokens, up to the end
token, and then the other is cut as if it stood alone, unless its first line is indented.

A lexer with more to read (`Extends`) is followed through one token (`Finds.continues`) and a run
(`Gives.continues`) up to the start of the text behind (`Opening`), where the open blocks are
closed.
-/
import SdkUsage.Proofs.Token.Layout
import SdkUsage.Proofs.Token.WholeLines

namespace SdkUsage

variable {cursor : Cursor} {ts : List Token} {last : Lexer} {whole : Bool} {width : Nat}
  {cs : List Char}

theorem Cursor.Over.suffix {first last : Cursor} (h : first.Over last) :
    last.rest <:+ first.rest := by
  obtain ⟨gap, passes, -⟩ := h
  exact ⟨gap, passes.rest.symm⟩

namespace Lexer

variable {l l' m : Lexer} {t u : Token} {more : List Char}

/-! ## Lexers with more to read -/

/-- A lexer is as another, wherever it stands, with more text behind. -/
structure Extends (more : List Char) (l m : Lexer) : Prop where
  rest : m.cursor.rest = l.cursor.rest ++ more
  blocks : m.blocks = l.blocks
  pending : List.Forall₂ Token.Alike l.pending m.pending
  depth : m.depth = l.depth
  lineStart : m.lineStart = l.lineStart
  lineOpen : m.lineOpen = l.lineOpen

/-- A lexer has whole lines left, and starts a line where none is. -/
structure Whole (l : Lexer) : Prop where
  lines : WholeLines l.cursor.rest
  line : l.cursor.rest = [] → l.lineStart = true
  fresh : l.lineStart = true → l.depth = 0 ∧ l.lineOpen = false
  blocks : ∀ w ∈ l.blocks, 0 < w
  pending : ∀ t ∈ l.pending, t.kind ≠ .eof

theorem layoutToken_alike (l m : Lexer) (kind : TokenKind)
    (hk : (l.layoutToken kind).isLayout = true) : (l.layoutToken kind).Alike (m.layoutToken kind) :=
  .of_layout rfl hk

theorem dedents_alike (l m : Lexer) (widths : List Nat) :
    List.Forall₂ Token.Alike (widths.map fun _ => l.layoutToken .dedent)
      (widths.map fun _ => m.layoutToken .dedent) := by
  refine Token.forall₂_alike_of_dedent ?_ ?_ (by simp)
  · intro t ht
    obtain ⟨_, -, rfl⟩ := List.mem_map.1 ht
    rfl
  · intro t ht
    obtain ⟨_, -, rfl⟩ := List.mem_map.1 ht
    rfl

namespace Extends

theorem pending_nil (h : Extends more l m) (hp : l.pending = []) : m.pending = [] := by
  have pending := h.pending
  rw [hp] at pending
  exact List.forall₂_nil_left_iff.1 pending

theorem noteToken (h : Extends more l m) (ht : t.Alike u) :
    Extends more (l.noteToken t) (m.noteToken u) := by
  unfold Lexer.noteToken
  rw [← ht.kind]
  split
  · exact { h with lineOpen := rfl }
  · exact h
  · exact h
  · exact h
  · exact { h with lineOpen := rfl }

/-- A line is compared with the open blocks in the same way. -/
theorem indentTo (h : Extends more l m) (hi : l.indentTo width = (none, l')) :
    ∃ m', m.indentTo width = (none, m') ∧ Extends more l' m' := by
  have wide : m.width = l.width := by rw [Lexer.width, Lexer.width, h.blocks]
  unfold Lexer.indentTo at hi ⊢
  rw [wide, h.blocks]
  by_cases hw : l.width < width
  · rw [if_pos hw] at hi ⊢
    cases hi
    exact ⟨_, rfl, { h with
      blocks := rfl
      pending := List.rel_append h.pending (.cons (layoutToken_alike l m .indent rfl) .nil) }⟩
  · rw [if_neg hw] at hi ⊢
    dsimp only at hi ⊢
    split at hi
    · next hc =>
      cases hi
      exact ⟨_, if_pos hc, { h with
        blocks := rfl
        pending := List.rel_append h.pending (dedents_alike l m _) }⟩
    · cases hi

theorem reaches (h : Extends more l m) (hr : l.Reaches cursor) (hm : cursor.rest ≠ [] ∨ more = []) :
    ∃ last, m.Reaches last ∧ last.rest = cursor.rest ++ more := by
  obtain ⟨last, blanks, rest⟩ := Cursor.blanks_append hr.blanks hm m.cursor.offset m.cursor.line
    m.cursor.col
  refine ⟨last, ⟨h.pending_nil hr.pending, ?_, ?_⟩, rest⟩
  · unfold InLine
    rw [h.lineStart, h.depth]
    exact hr.inLine
  · rw [Cursor.skipBlanks, h.rest, h.depth, blanks]

theorem starts (h : Extends more l m) (hs : l.Starts (some width) cursor) :
    ∃ last, m.Starts (some width) last ∧ last.rest = cursor.rest ++ more := by
  obtain ⟨last, indentation, rest⟩ := Cursor.indentation_append hs.indentation more
    m.cursor.offset m.cursor.line m.cursor.col
  refine ⟨last, ⟨h.pending_nil hs.pending, h.lineStart.trans hs.lineStart,
    h.depth.trans hs.depth, ?_⟩, rest⟩
  rw [Cursor.readIndentation, h.rest, indentation]

/-- The end of a text. -/
theorem starts_none (h : Extends [] l m) (hs : l.Starts none cursor) :
    ∃ last, m.Starts none last ∧ last.rest = [] := by
  have rest := h.rest
  rw [List.append_nil] at rest
  have none := Cursor.indentation_none (congrArg Prod.fst hs.indentation) m.cursor.offset
    m.cursor.line m.cursor.col
  have starts : m.Starts .none m.cursor.readIndentation.2 := by
    refine ⟨h.pending_nil hs.pending, h.lineStart.trans hs.lineStart, h.depth.trans hs.depth, ?_⟩
    rw [← none, ← rest]
    rfl
  exact ⟨_, starts, starts.rest⟩

theorem atNextLine {last : Cursor} (h : Extends more l m) (hline : cursor.rest = '\n' :: cs)
    (hlast : last.rest = cursor.rest ++ more) :
    Extends more (l.atNextLine cursor) (m.atNextLine last) := by
  refine { h with rest := ?_, lineStart := rfl, lineOpen := rfl }
  show last.nextLine.rest = cursor.nextLine.rest ++ more
  rw [Cursor.rest_nextLine, Cursor.rest_nextLine, hlast, hline]
  rfl

theorem finish (h : Extends more l m) (hf : l.finish = (some (.ok t), l')) :
    ∃ u m', m.finish = (some (.ok u), m') ∧ t.Alike u ∧ Extends more l' m' := by
  have eof := layoutToken_alike l m .eof rfl
  unfold Lexer.finish at hf ⊢
  rw [h.blocks, h.lineOpen]
  cases ho : l.lineOpen with
  | true =>
    simp only [ho, if_true, List.singleton_append] at hf ⊢
    cases hf
    exact ⟨_, _, rfl, layoutToken_alike l m .newline rfl, { h with
      blocks := rfl
      lineOpen := rfl
      pending := List.rel_append (dedents_alike l m l.blocks) (.cons eof .nil) }⟩
  | false =>
    cases hb : l.blocks with
    | nil =>
      simp only [ho, hb, Bool.false_eq_true, if_false, List.map_nil, List.append_nil] at hf ⊢
      cases hf
      exact ⟨_, _, rfl, eof, { h with blocks := rfl, lineOpen := rfl }⟩
    | cons w ws =>
      simp only [ho, hb, Bool.false_eq_true, if_false, List.map_cons, List.nil_append] at hf ⊢
      cases hf
      exact ⟨_, _, rfl, layoutToken_alike l m .dedent rfl, { h with
        blocks := rfl
        lineOpen := rfl
        pending := List.rel_append (dedents_alike l m ws) (.cons eof .nil) }⟩

end Extends

namespace Whole

theorem noteToken (h : l.Whole) (ht : t.isLayout = true) : (l.noteToken t).Whole := by
  unfold Token.isLayout at ht
  unfold Lexer.noteToken
  cases hk : t.kind with
  | newline => exact { h with fresh := fun hl => ⟨(h.fresh hl).1, rfl⟩ }
  | indent | dedent | eof => exact h
  | symbol | string | number | ident =>
    rw [hk] at ht
    cases ht

/-- In a line no indentation is to be read, and something is left. -/
theorem reaches (h : l.Whole) (hr : l.Reaches cursor) :
    l.lineStart = false ∧ l.cursor.rest ≠ [] := by
  have inLine : l.lineStart = false := by
    by_contra hs
    rw [Bool.not_eq_false] at hs
    exact hr.inLine ⟨hs, (h.fresh hs).1⟩
  refine ⟨inLine, fun hnil => ?_⟩
  cases inLine.symm.trans (h.line hnil)

theorem indented {width : Nat} {cursor : Cursor} (h : l.Whole) (hs : l.Starts (some width) cursor)
    (hi : (l.atIndented cursor).indentTo width = (none, l')) : l'.Whole := by
  have same := indentTo_cursor (l.atIndented cursor) width
  have line := indentTo_lineStart (l.atIndented cursor) width
  rw [hi] at same line
  have same : l'.cursor = cursor := same
  have line : l'.lineStart = false := line
  have pending : (l.atIndented cursor).pending = [] := hs.pending
  refine ⟨?_, fun hnil => ?_, fun hl => ?_, ?_, (opens_of_indentTo pending hi).ne_eof⟩
  · rw [same]
    exact h.lines.suffix hs.over.suffix
  · obtain ⟨c, cs, rest, -⟩ := hs.cons
    rw [same, rest] at hnil
    cases hnil
  · cases line.symm.trans hl
  · unfold Lexer.indentTo at hi
    split at hi
    · next hw =>
      cases hi
      exact List.forall_mem_cons.2 ⟨Nat.lt_of_le_of_lt (Nat.zero_le _) hw, h.blocks⟩
    · dsimp only at hi
      split at hi
      · cases hi
        exact fun w hw => h.blocks w ((List.dropWhile_suffix _).subset hw)
      · cases hi

theorem atNextLine (h : l.Whole) (hr : l.Reaches cursor) (hline : cursor.rest = '\n' :: cs) :
    (l.atNextLine cursor).Whole := by
  have rest : (l.atNextLine cursor).cursor.rest = cs := by
    show cursor.nextLine.rest = cs
    rw [Cursor.rest_nextLine, hline]
    rfl
  refine ⟨?_, fun _ => rfl, fun _ => ⟨hr.depth hline, rfl⟩, h.blocks, h.pending⟩
  rw [rest]
  have lines := h.lines.suffix hr.over.suffix
  rw [hline] at lines
  exact lines.tail

/-- Something is left after a token. -/
theorem word {cursor last : Cursor} {kind : TokenKind} {text : List Char} (h : l.Whole)
    (hr : l.Reaches cursor) (ht : tokenAt? cursor.rest = some (kind, text))
    (hp : cursor.Passes text last) :
    Whole { l.passToken kind text last with lineOpen := true } := by
  have lines := h.lines.suffix hr.over.suffix
  rw [hp.rest] at lines ht
  refine ⟨lines.suffix ⟨text, rfl⟩, fun hnil => absurd hnil (lines.after_token ht), fun hl => ?_,
    h.blocks, h.pending⟩
  cases (h.reaches hr).1.symm.trans hl

end Whole

/-! ## One token -/

/-- A text can come behind that of a lexer: the lexer has whole lines, or there is no more. -/
def Joins (whole : Bool) (more : List Char) (l : Lexer) : Prop :=
  if whole then l.Whole else more = []

theorem Joins.imp (h : Joins whole more l) (hl : l.Whole → l'.Whole) : Joins whole more l' := by
  cases whole with
  | true => exact hl h
  | false => exact h

theorem Joins.or (h : Joins whole more l) : more = [] ∨ l.Whole := by
  cases whole with
  | true => exact .inr h
  | false => exact .inl h

/-- A lexer is at the start of a text, with some blocks to close. -/
structure Opening (more : List Char) (n : Lexer) : Prop where
  line : n.AtLine
  rest : n.cursor.rest = more
  blocks : ∀ w ∈ n.blocks, 0 < w

/-- What becomes of a token if there is more text: it is found again (`goes`), or it is one of
those at the end of the text, and the lexer is at the start of the text behind (`ends`), or it is
at the end of a text with open brackets (`inside`). -/
inductive Continues (whole : Bool) (more : List Char) (t : Token) (l' m : Lexer) : Prop
  | goes {u : Token} {m' : Lexer} : m.next = (.ok u, m') → t.Alike u → Extends more l' m' →
      Joins whole more l' → (whole = true → t.kind ≠ .eof) → Continues whole more t l' m
  | ends {n : Lexer} {us : List Token} {last : Lexer} : whole = true → l'.Gives us last →
      Closes n.blocks.length (t :: us) → m.next = n.next → n.Opening more →
      Continues whole more t l' m
  | inside {us : List Token} {last : Lexer} : whole = true → l'.Gives us last → Ended (t :: us) →
      (∀ u ∈ us, u.isLayout = true) → l'.depth ≠ 0 → Continues whole more t l' m

theorem Continues.of_next {m' : Lexer} (h : Continues whole more t l' m') (hn : m.next = m'.next) :
    Continues whole more t l' m := by
  cases h with
  | goes next alike extends_ joins eof => exact .goes (hn.trans next) alike extends_ joins eof
  | ends whole given closes next opening => exact .ends whole given closes (hn.trans next) opening
  | inside whole given ended layout depth => exact .inside whole given ended layout depth

theorem next_of_emptyLine (hr : l.Reaches cursor) (hline : cursor.rest = '\n' :: cs)
    (ho : l.lineOpen = false) : l.next = (l.atNextLine cursor).next := by
  have scanned := scan_of_lineEnd hr hline
  simp only [ho, Bool.false_eq_true, if_false] at scanned
  rw [next_of_scan_none scanned, atNextLine, ← ho]

/-- At the end of a text of whole lines the lexer is at the start of the text behind. -/
theorem Extends.next_line (h : Extends more l m) (hw : l.Whole) (hs : l.Starts none cursor) :
    ∃ n : Lexer, m.next = n.next ∧ n.Opening more ∧ n.blocks = l.blocks := by
  have pending := h.pending_nil hs.pending
  obtain ⟨o, line, k, same⟩ := Cursor.indentation_append_none
    (congrArg Prod.fst hs.indentation) hw.lines.lineFeed (fun _ => ⟨rfl, rfl⟩) more
    m.cursor.offset m.cursor.line m.cursor.col
  rw [← h.rest] at same
  have start := h.lineStart.trans hs.lineStart
  have depth := h.depth.trans hs.depth
  let n : Lexer := { m with cursor := ⟨more, o, line, k⟩ }
  refine ⟨n, next_eq_of_scan ?_, ⟨⟨pending, start, depth, ?_⟩, rfl, ?_⟩, h.blocks⟩
  · have indentation : m.cursor.readIndentation = n.cursor.readIndentation := same
    rw [scan_of_lineStart pending start depth, @scan_of_lineStart n pending start depth]
    unfold scanAtLineStart
    rw [indentation]
  · exact h.lineOpen.trans (hw.fresh hs.lineStart).2
  · rw [show n.blocks = l.blocks from h.blocks]
    exact hw.blocks

/-- The end of a text inside brackets. -/
theorem Whole.depth_ne {cursor : Cursor} (h : l.Whole) (hr : l.Reaches cursor)
    (hnil : cursor.rest = []) : l.depth ≠ 0 := by
  intro depth
  have blanks := hr.blanks
  rw [depth] at blanks
  exact Cursor.blanks_ne_nil blanks h.lines (h.reaches hr).2 hnil

theorem ended_closing (l : Lexer) : Ended l.closingTokens := by
  have blocks := (closes_closing l l.blocks).ended
  unfold closingTokens
  split
  · exact .cons (by simp [layoutToken]) blocks
  · exact blocks

theorem finish_depth (h : l.finish = (some (.ok t), l')) : l'.depth = l.depth := by
  unfold finish at h
  dsimp only at h
  split at h
  · cases h
    rfl
  · cases h
    rfl

/-- **What a token becomes if there is more text.** -/
theorem Finds.continues (hf : l.Finds t l') (he : Extends more l m) (hw : Joins whole more l)
    (hq : l.Quiet) : Continues whole more t l' m := by
  induction hf generalizing m with
  | @waiting l t ts hp =>
    have pending := he.pending
    rw [hp] at pending
    obtain ⟨u, us, first, rest, hp'⟩ := List.forall₂_cons_left_iff.1 pending
    have moved : Extends more { l with pending := ts } { m with pending := us } :=
      { he with pending := rest }
    refine .goes (Finds.waiting hp').next_eq first (moved.noteToken first)
      (hw.imp fun whole => ?_) ?_
    · have kept : Whole { l with pending := ts } :=
        { whole with pending := fun u hu => whole.pending u (hp ▸ List.mem_cons_of_mem t hu) }
      exact kept.noteToken (hq t (by simp [hp]))
    · rintro rfl
      exact Whole.pending hw t (by simp [hp])
  | @indented l width cursor l' t l'' hs hi _ ih =>
    obtain ⟨last, starts, rest⟩ := he.starts hs
    have moved : Extends more (l.atIndented cursor) (m.atIndented last) :=
      { he with rest := rest, lineStart := rfl }
    obtain ⟨m', indented, extends_⟩ := moved.indentTo hi
    have quiet := indentTo_quiet (show (l.atIndented cursor).Quiet from hq) width
    rw [hi] at quiet
    have next := ih extends_ (hw.imp fun whole => whole.indented hs hi) quiet
    exact next.of_next (next_eq_of_scan (scan_of_indented starts indented))
  | @ended l cursor t l' hs hf =>
    cases whole with
    | false =>
      cases hw
      obtain ⟨last, starts, rest⟩ := he.starts_none hs
      have moved : Extends [] (l.atIndented cursor) (m.atIndented last) :=
        { he with rest := rest.trans (by rw [List.append_nil]; exact hs.rest.symm), lineStart := rfl }
      obtain ⟨u, m', finished, alike, extends_⟩ := moved.finish hf
      exact .goes (Finds.ended starts finished).next_eq alike (extends_.noteToken alike) rfl
        (by simp)
    | true =>
      obtain ⟨n, next, opening, blocks⟩ := he.next_line hw hs
      obtain ⟨us, last, closes, given⟩ := finish_of_closed hf hs.pending
        (Whole.fresh hw hs.lineStart).2
      refine .ends rfl given ?_ next opening
      rw [blocks]
      exact closes
  | @finished l cursor t l' hr hnil hf =>
    cases whole with
    | false =>
      cases hw
      obtain ⟨last, reaches, rest⟩ := he.reaches hr (.inr rfl)
      rw [List.append_nil, hnil] at rest
      have moved : Extends [] { l with cursor } { m with cursor := last } :=
        { he with rest := by rw [List.append_nil, hnil, rest] }
      obtain ⟨u, m', finished, alike, extends_⟩ := moved.finish hf
      exact .goes (Finds.finished reaches rest finished).next_eq alike (extends_.noteToken alike)
        rfl (by simp)
    | true =>
      obtain ⟨us, last, closing, given⟩ := finish_eq_closing hf hr.pending
      have ended := ended_closing { l with cursor }
      rw [closing] at ended
      refine .inside rfl given ended (fun u hu => ?_) ?_
      · exact isLayout_closing (closing ▸ List.mem_cons_of_mem t hu)
      · rw [noteToken_depth, finish_depth hf]
        exact @Whole.depth_ne l cursor hw hr hnil
  | @lineEnd l cursor cs hr hline hopen =>
    obtain ⟨last, reaches, rest⟩ := he.reaches hr (.inl (by simp [hline]))
    have moved := he.atNextLine hline rest
    rw [hline] at rest
    have found := Finds.lineEnd reaches rest (he.lineOpen.trans hopen)
    exact .goes found.next_eq (.of_layout rfl rfl) moved
      (hw.imp fun whole => whole.atNextLine hr hline) (by simp [lineEndToken])
  | @emptyLine l cursor cs t l' hr hline hclosed _ ih =>
    obtain ⟨last, reaches, rest⟩ := he.reaches hr (.inl (by simp [hline]))
    have next := ih (he.atNextLine hline rest) (hw.imp fun whole => whole.atNextLine hr hline) hq
    rw [hline] at rest
    exact next.of_next (next_of_emptyLine reaches rest (he.lineOpen.trans hclosed))
  | @word l cursor kind text stop hr ht hpasses hs =>
    have written := tokenAt?_front ht
    have nonempty : cursor.rest ≠ [] := by
      rw [hpasses.rest]
      simp [written.2.1]
    obtain ⟨last, reaches, rest⟩ := he.reaches hr (.inl nonempty)
    have lines : more = [] ∨ WholeLines (text ++ stop.rest) := by
      rw [← hpasses.rest]
      exact hw.or.imp_right fun whole => whole.lines.suffix hr.over.suffix
    have again : tokenAt? last.rest = some (kind, text) := by
      rw [rest, hpasses.rest, List.append_assoc]
      exact tokenAt?_append (hpasses.rest ▸ ht) lines
    obtain ⟨stop', passes, scanned⟩ := scanToken_of_tokenAt { m with cursor := last } again
    have behind : stop'.rest = stop.rest ++ more := by
      have parts : text ++ stop'.rest = text ++ (stop.rest ++ more) := by
        rw [← List.append_assoc, ← hpasses.rest, ← passes.rest, rest]
      exact List.append_cancel_left parts
    refine .goes (Finds.word reaches again passes scanned).next_eq ⟨rfl, fun _ => rfl⟩
      { he with rest := behind, depth := ?_, lineOpen := rfl }
      (hw.imp fun whole => whole.word hr ht hpasses) ?_
    · simp only [passToken, he.depth]
    · rintro - rfl
      simpa using written.2.2

/-! ## Runs -/

/-- A lexer on the same text, wherever it stands, gives the same tokens. -/
theorem Gives.again (hg : l.Gives ts last) (he : Extends [] l m) (hq : l.Quiet) :
    ∃ us last', m.Gives us last' ∧ List.Forall₂ Token.Alike ts us := by
  induction hg generalizing m with
  | nil => exact ⟨[], m, .nil m, .nil⟩
  | @cons l t l' ts last hn _ ih =>
    have next : Continues false [] t l' m := (next_eq_ok_iff.1 hn).continues he rfl hq
    cases next with
    | goes hn' alike extends_ =>
      obtain ⟨us, last', given, same⟩ := ih extends_ (next_fair hq hn).1
      exact ⟨_, last', .cons hn' given, .cons alike same⟩
    | ends whole | inside whole => cases whole

theorem Gives.depth_of_layout (hg : l.Gives ts last) (hq : l.Quiet)
    (ht : ∀ t ∈ ts, t.isLayout = true) : last.depth = l.depth := by
  induction hg with
  | nil => rfl
  | @cons l t l' ts last hn _ ih =>
    obtain ⟨quiet, -, depth, -⟩ := next_fair hq hn
    rw [List.forall_mem_cons] at ht
    rw [ih quiet ht.2, depth, Token.word_eq_of_isLayout ht.1]
    rfl

/-- **A run with more text behind.** Up to the tokens that close the open blocks at the end, its
tokens are given again, and then the lexer is at the start of the text behind. -/
theorem Gives.continues (hg : l.Gives ts last) (hend : Ended ts) (hd : last.depth = 0)
    (he : Extends more l m) (hw : l.Whole) (hq : l.Quiet) :
    ∃ front back us, ∃ mid n : Lexer, ts = front ++ back ∧ List.Forall₂ Token.Alike front us ∧
      m.Gives us mid ∧ mid.next = n.next ∧ n.Opening more ∧ Closes n.blocks.length back := by
  induction hg generalizing m with
  | nil => cases hend
  | @cons l t l' ts last hn hg ih =>
    have unique {us : List Token} {stop : Lexer} (hus : l'.Gives us stop) (hu : Ended (t :: us)) :
        us = ts :=
      List.tail_eq_of_cons_eq ((Gives.cons hn hus).unique (.cons hn hg) hu hend)
    have next : Continues true more t l' m := (next_eq_ok_iff.1 hn).continues he hw hq
    cases next with
    | goes hn' alike extends_ whole eof =>
      cases hend with
      | last hk => exact absurd hk (eof rfl)
      | cons hk hend =>
        obtain ⟨front, back, us, mid, n, rfl, same, given, rest⟩ :=
          ih hend hd extends_ whole (next_fair hq hn).1
        exact ⟨t :: front, back, _ :: us, mid, n, rfl, .cons alike same, .cons hn' given, rest⟩
    | ends _ given closes hn' opening =>
      cases unique given closes.ended
      exact ⟨[], _, [], m, _, rfl, .nil, .nil m, hn', opening, closes⟩
    | inside _ given ended layout depth =>
      cases unique given ended
      refine absurd ?_ depth
      rw [← (hg.depth_of_layout (next_fair hq hn).1 layout)]
      exact hd

/-! ## The start of the text behind -/

theorem Gives.of_next (h : m.Gives ts last) (ht : ts ≠ []) (hn : l.next = m.next) :
    l.Gives ts last := by
  cases h with
  | nil => exact absurd rfl ht
  | cons next rest => exact .cons (hn.trans next) rest

/-- A line that is not indented closes all blocks. -/
theorem indentTo_zero (hp : l.pending = []) (hb : ∀ w ∈ l.blocks, 0 < w) :
    l.indentTo 0 = (none, { l with
      blocks := [], pending := l.blocks.map fun _ => l.layoutToken .dedent }) := by
  have closed : l.blocks.takeWhile (0 < ·) = l.blocks := by
    rw [List.takeWhile_eq_self_iff]
    simpa using hb
  have none : l.blocks.dropWhile (0 < ·) = [] := by
    rw [List.dropWhile_eq_nil_iff]
    simpa using hb
  unfold indentTo
  rw [if_neg (Nat.not_lt_zero _), closed, none, hp]
  rfl

/-- Where no block is open and the first token is not an indentation, the line is not
indented. -/
theorem Starts.width_zero (hs : l.Starts (some width) cursor) (hb : l.blocks = [])
    (hi : (l.atIndented cursor).indentTo width = (none, l')) (hf : l'.Finds t m)
    (ht : t.kind ≠ .indent) : width = 0 := by
  by_contra positive
  have wider : (l.atIndented cursor).width < width := by
    rw [Lexer.width, atIndented, hb]
    exact Nat.pos_of_ne_zero positive
  rw [indentTo, if_pos wider] at hi
  cases hi
  have pending : (l.atIndented cursor).pending = [] := hs.pending
  have found := (Finds.waiting (l := { l.atIndented cursor with
    blocks := width :: (l.atIndented cursor).blocks
    pending := (l.atIndented cursor).pending ++ [(l.atIndented cursor).layoutToken .indent] })
    (by rw [pending]; rfl)).next_eq
  cases found.symm.trans hf.next_eq
  exact ht rfl

/-- A lexer closes its open blocks and then gives tokens like the given ones. -/
def GivesBehind (n : Lexer) (ts : List Token) : Prop :=
  ∃ ds us last, n.Gives (ds ++ us) last ∧ (∀ d ∈ ds, d.kind = .dedent) ∧
    ds.length = n.blocks.length ∧ List.Forall₂ Token.Alike ts us

theorem dedents_kind (l : Lexer) (widths : List Nat) :
    ∀ d ∈ widths.map (fun _ => l.layoutToken .dedent), d.kind = .dedent := by
  intro d hd
  obtain ⟨_, -, rfl⟩ := List.mem_map.1 hd
  rfl

namespace Opening

variable {n last : Lexer} {ts : List Token} {cursor : Cursor}

theorem extends_blocks (hn : n.Opening l.cursor.rest) (hl : l.AtLine) :
    Extends [] { l with blocks := n.blocks } n where
  rest := hn.rest.trans (List.append_nil _).symm
  blocks := rfl
  pending := by rw [hl.pending, hn.line.pending]; exact .nil
  depth := hn.line.depth.trans hl.depth.symm
  lineStart := hn.line.lineStart.trans hl.lineStart.symm
  lineOpen := hn.line.lineOpen.trans hl.lineOpen.symm

/-- The first line of the text behind closes all blocks, if it is not indented. -/
theorem gives_line (hn : n.Opening l.cursor.rest) (hl : l.AtLine) (hb : l.blocks = [])
    (hs : l.Starts (some 0) cursor) (hg : l.Gives ts last) (ht : ts ≠ []) : n.GivesBehind ts := by
  have started : ({ l with blocks := n.blocks } : Lexer).Starts (some 0) cursor :=
    ⟨hs.pending, hs.lineStart, hs.depth, hs.indentation⟩
  obtain ⟨stop, starts, rest⟩ := (hn.extends_blocks hl).starts started
  -- Both go on in the line: the one with its blocks closed, the other without any.
  have none := @indentTo_zero (l.atIndented cursor) hl.pending (by simp [atIndented, hb])
  have closes := @indentTo_zero (n.atIndented stop) hn.line.pending hn.blocks
  have inLine := hg.of_next ht (next_eq_of_scan (scan_of_indented hs none)).symm
  obtain ⟨us, last', given, alike⟩ := inLine.again
    (m := { n.atIndented stop with blocks := [], pending := [] })
    ⟨rest, rfl, by simp [atIndented, hb], hn.line.depth.trans hl.depth.symm, rfl,
      hn.line.lineOpen.trans hl.lineOpen.symm⟩
    (by simp [Quiet, atIndented, hb])
  have dedents := dedents_kind (n.atIndented stop) n.blocks
  have waits := @gives_pending { n.atIndented stop with
    blocks := [], pending := n.blocks.map fun _ => (n.atIndented stop).layoutToken .dedent }
    _ [] (List.append_nil _).symm fun d hd => .inr (.inl (dedents d hd))
  refine ⟨_, us, last', (waits.append given).of_next ?_ ?_, dedents, List.length_map _, alike⟩
  · intro hnil
    rw [(List.append_eq_nil_iff.1 hnil).2] at alike
    exact ht (List.forall₂_nil_right_iff.1 alike)
  · exact next_eq_of_scan (scan_of_indented starts closes)

/-- If the text behind holds no tokens, all blocks are closed at its end. -/
theorem gives_end (hn : n.Opening l.cursor.rest) (hl : l.AtLine) (hs : l.Starts none cursor)
    (ht : t.kind = .eof) : n.GivesBehind [t] := by
  have started : ({ l with blocks := n.blocks } : Lexer).Starts none cursor :=
    ⟨hs.pending, hs.lineStart, hs.depth, hs.indentation⟩
  obtain ⟨stop, starts, -⟩ := (hn.extends_blocks hl).starts_none started
  obtain ⟨u, n', us, last', finished, closing, given⟩ := finish_gives (n.atIndented stop) starts.pending
  have whole := Gives.cons (Finds.ended starts finished).next_eq given
  have shut : (n.atIndented stop).lineOpen = false := hn.line.lineOpen
  rw [← closing, closingTokens, shut, if_neg Bool.false_ne_true, List.nil_append] at whole
  exact ⟨_, _, last', whole, dedents_kind _ _, List.length_map _,
    .cons (.of_layout ht (Token.isLayout_of_eof ht)) .nil⟩

/-- **The text behind.** The blocks that are open at its start are closed, and its tokens are
given, if the first is not an indentation. -/
theorem gives (hn : n.Opening l.cursor.rest) (hl : l.AtLine) (hb : l.blocks = [])
    (hg : l.Gives (t :: ts) last) (hend : Ended (t :: ts)) (ht : t.kind ≠ .indent) :
    n.GivesBehind (t :: ts) := by
  have inLine (cursor : Cursor) : ¬ l.Reaches cursor :=
    fun hr => hr.inLine ⟨hl.lineStart, hl.depth⟩
  obtain ⟨between, next, -⟩ := hg.uncons
  cases next_eq_ok_iff.1 next with
  | waiting hp => cases hl.pending.symm.trans hp
  | indented hs hi hf =>
    cases hs.width_zero hb hi hf ht
    exact hn.gives_line hl hb hs hg (by simp)
  | @ended _ cursor _ l' hs hf =>
    obtain ⟨us, stop, closes, given⟩ := finish_of_closed hf hl.pending hl.lineOpen
    cases hg.unique (.cons next given) hend closes.ended
    rw [show (l.atIndented cursor).blocks.length = 0 by simp [atIndented, hb]] at closes
    cases closes with
    | eof hk => exact hn.gives_end hl hs hk
  | finished hr | lineEnd hr | emptyLine hr | word hr => exact absurd hr (inLine _)

end Opening

end Lexer

/-! ## Sources -/

/-- What closes blocks at the end of a text are tokens that close them, and the end token. -/
theorem Closes.eq_append {level : Nat} (h : Closes level ts) :
    ∃ ds e, ts = ds ++ [e] ∧ ds.length = level ∧ (∀ d ∈ ds, d.kind = .dedent) ∧ e.kind = .eof := by
  induction h with
  | @eof t ht => exact ⟨[], t, rfl, rfl, by simp, ht⟩
  | @block level t ts ht _ ih =>
    obtain ⟨ds, e, rfl, length, dedents, he⟩ := ih
    exact ⟨t :: ds, e, rfl, congrArg (· + 1) length, List.forall_mem_cons.2 ⟨ht, dedents⟩, he⟩

theorem Lexer.Ended.uncons {t : Token} (h : Ended (t :: ts)) (ht : ts ≠ []) :
    t.kind ≠ .eof ∧ Ended ts := by
  cases h with
  | last => exact absurd rfl ht
  | cons hk h => exact ⟨hk, h⟩

/-- Other tokens instead of the end token. -/
theorem Lexer.Ended.replace {us vs : List Token} {e : Token} (h : Ended (ts ++ [e]))
    (ha : List.Forall₂ Token.Alike ts us) (hv : Ended vs) : Ended (us ++ vs) := by
  induction ha with
  | nil => exact hv
  | cons htu _ ih =>
    obtain ⟨ht, h⟩ := h.uncons (by simp)
    exact .cons (htu.kind ▸ ht) (ih h)

namespace Source

/-- A source with the text of another behind its own. -/
def append (a b : Source) : Source := { a with text := a.text ++ b.text }

theorem chars_append (a b : Source) : (a.append b).chars = a.chars ++ b.chars := by
  simp [append, chars]

theorem rest_start {source : Source} (h : '\x00' ∉ source.chars) :
    (Lexer.start source).cursor.rest = source.chars := by
  show source.chars.takeWhile _ = source.chars
  rw [List.takeWhile_eq_self_iff]
  intro c hc
  simpa using fun heq : c = '\x00' => h (heq ▸ hc)

theorem rest_append {a : Source} (b : Source) (h : '\x00' ∉ a.chars) :
    (Lexer.start (a.append b)).cursor.rest =
      (Lexer.start a).cursor.rest ++ (Lexer.start b).cursor.rest := by
  have whole := rest_start h
  rw [whole]
  change a.chars.takeWhile _ = _ at whole
  show (a.append b).chars.takeWhile _ = a.chars ++ b.chars.takeWhile _
  rw [chars_append, List.takeWhile_append, whole, if_pos rfl]

/-- **The tokens of two texts, one behind the other.** -/
theorem lexes_append {a b : Source} {us : List Token} {e u : Token} (ha : '\x00' ∉ a.chars)
    (hl : WholeLines a.chars) (hend : Lexer.Ended (ts ++ [e]))
    (hg : (Lexer.start a).Gives (ts ++ [e]) last) (hd : last.depth = 0) (hb : b.Lexes (u :: us))
    (hu : u.kind ≠ .indent) :
    ∃ ts' us', (a.append b).Lexes (ts' ++ us') ∧ List.Forall₂ Token.Alike ts ts' ∧
      List.Forall₂ Token.Alike (u :: us) us' := by
  have lines : WholeLines (Lexer.start a).cursor.rest := by rwa [rest_start ha]
  have whole : (Lexer.start a).Whole :=
    ⟨lines, fun _ => rfl, fun _ => ⟨rfl, rfl⟩, by simp [Lexer.start], by simp [Lexer.start]⟩
  have extends_ : (Lexer.start a).Extends (Lexer.start b).cursor.rest (Lexer.start (a.append b)) :=
    ⟨rest_append b ha, rfl, .nil, rfl, rfl, rfl⟩
  obtain ⟨front, back, front', mid, n, parts, alike, first, next, opening, closes⟩ :=
    hg.continues hend hd extends_ whole (Lexer.start_quiet a)
  obtain ⟨hend', stop, hus⟩ := hb
  obtain ⟨ds, vs, stop', given, dedents, count, alike'⟩ :=
    opening.gives ⟨rfl, rfl, rfl, rfl⟩ rfl hus hend' hu
  -- The first text closes its blocks before the end token, the second before its first line.
  obtain ⟨cs, e', rfl, length, closing, -⟩ := closes.eq_append
  rw [← List.append_assoc] at parts
  obtain ⟨rfl, -⟩ := List.append_inj' parts rfl
  have same : List.Forall₂ Token.Alike (front ++ cs) (front' ++ ds) := List.rel_append alike
    (Token.forall₂_alike_of_dedent closing dedents (length.trans count.symm))
  refine ⟨front' ++ ds, vs, ⟨hend.replace same (hend'.of_alike alike'), stop', ?_⟩, same, alike'⟩
  have nonempty : ds ++ vs ≠ [] := by
    intro hnil
    rw [(List.append_eq_nil_iff.1 hnil).2] at alike'
    cases alike'
  rw [List.append_assoc]
  exact first.append (given.of_next nonempty next)

end Source

end SdkUsage
