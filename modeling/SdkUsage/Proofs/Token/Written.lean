/-
Texts whose tokens are known from the way they are written: line by line, each
line indented by one space for every open block, and each word the token at the
front of the text that starts with it. The lexer gives the words of the lines
and the layout between them (`Prints.lexes`).
-/
import Mathlib.Data.List.Forall2
import Mathlib.Data.List.TakeWhile
import SdkUsage.Proofs.Token.Stream

namespace SdkUsage

/-! ## Written lines -/

/-- The open brackets after a token. -/
def Token.depthPast (depth : Nat) (t : Token) : Nat :=
  if t.kind = .symbol then Lexer.depthAfter t.text.toList depth else depth

/-- Words written one after another before `after`, the first of them after `n` spaces. -/
inductive Spells (after : List Char) : (n : Nat) → List Token → List Char → Prop
  | nil {n} : Spells after n [] []
  | cons {n m t ts text} :
      tokenAt? (t.text.toList ++ (text ++ after)) = some (t.kind, t.text.toList) →
      Spells after m ts text →
      Spells after n (t :: ts) (List.replicate n ' ' ++ (t.text.toList ++ text))

/-- Layout that leads from a number of open blocks to another: one block is opened, or some
or none are closed. -/
inductive Opens : (level : Nat) → List Token → (level' : Nat) → Prop
  | block {level t} : t.kind = .indent → Opens level [t] (level + 1)
  | close {level ts} : (∀ t ∈ ts, t.kind = .dedent) → Opens (level + ts.length) ts level

/-- Layout at the end of a text: all blocks are closed. -/
inductive Closes : (level : Nat) → List Token → Prop
  | eof {t} : t.kind = .eof → Closes 0 [t]
  | block {level t ts} : t.kind = .dedent → Closes level ts → Closes (level + 1) (t :: ts)

/-- Lines with the given tokens, written where `level` blocks are open. Brackets that are open
at the end of a line are so to the end of the text. -/
inductive Prints : (level : Nat) → List Token → List Char → Prop
  | done {level ts} : Closes level ts → Prints level ts []
  | line {level layout level' words text t rest more} : Opens level layout level' → words ≠ [] →
      Spells ('\n' :: more) level' words text → words.foldl Token.depthPast 0 = 0 →
      t.kind = .newline → Prints level' rest more →
      Prints level (layout ++ (words ++ t :: rest)) (text ++ '\n' :: more)
  | unclosed {level layout level' words text t rest} : Opens level layout level' → words ≠ [] →
      Spells ['\n'] level' words text → words.foldl Token.depthPast 0 ≠ 0 →
      t.kind = .newline → Closes level' rest →
      Prints level (layout ++ (words ++ t :: rest)) (text ++ ['\n'])

/-! ## Positions -/

/-- A token does not start with what stands between tokens. -/
theorem tokenAt?_head {text token : List Char} {kind : TokenKind}
    (h : tokenAt? text = some (kind, token)) : ∃ c cs, text = c :: cs ∧ c ∉ gapStarts := by
  obtain ⟨⟨after, rfl⟩, nonempty, -⟩ := tokenAt?_front h
  cases token with
  | nil => exact absurd rfl nonempty
  | cons c cs =>
    refine ⟨c, cs ++ after, rfl, fun hc => ?_⟩
    rw [List.cons_append, tokenAt?_gap hc] at h
    cases h

namespace Cursor

/-- Spaces before a token are its indentation. -/
theorem readIndentation_spaces {cursor : Cursor} {n : Nat} {c : Char} {cs : List Char}
    (h : cursor.rest = List.replicate n ' ' ++ c :: cs) (hc : c ∉ gapStarts) :
    ∃ last, cursor.readIndentation = (some n, last) ∧ last.rest = c :: cs := by
  have spaces (n width offset line col : Nat) : ∃ last, indentation width false
      (List.replicate n ' ' ++ c :: cs) offset line col = (some (width + n), last) ∧
      last.rest = c :: cs := by
    induction n generalizing width offset line col with
    | zero =>
      simp only [gapStarts, List.mem_cons, List.not_mem_nil, or_false, not_or] at hc
      exact ⟨⟨c :: cs, offset, line, col⟩, by simp [indentation, hc], rfl⟩
    | succ n ih =>
      obtain ⟨last, hlast, hrest⟩ := ih (width + 1) (offset + 1) line (col + 1)
      refine ⟨last, ?_, hrest⟩
      rw [show width + (n + 1) = width + 1 + n by omega, ← hlast]
      simp [List.replicate_succ, indentation]
  obtain ⟨last, hlast, hrest⟩ := spaces n 0 cursor.offset cursor.line cursor.col
  exact ⟨last, by rw [readIndentation, h, hlast, Nat.zero_add], hrest⟩

/-- Spaces before a token are passed. -/
theorem skipBlanks_spaces {cursor : Cursor} {n : Nat} {c : Char} {cs : List Char} (joined : Bool)
    (h : cursor.rest = List.replicate n ' ' ++ c :: cs) (hc : c ∉ gapStarts) :
    ∃ last, cursor.skipBlanks joined = (true, last) ∧ last.rest = c :: cs := by
  have spaces (n offset line col : Nat) : ∃ last, blanks joined false
      (List.replicate n ' ' ++ c :: cs) offset line col = (true, last) ∧ last.rest = c :: cs := by
    induction n generalizing offset line col with
    | zero =>
      simp only [gapStarts, List.mem_cons, List.not_mem_nil, or_false, not_or] at hc
      refine ⟨⟨c :: cs, offset, line, col⟩, ?_, rfl⟩
      unfold blanks
      simp [hc]
    | succ n ih =>
      obtain ⟨last, hlast, hrest⟩ := ih (offset + 1) line (col + 1)
      refine ⟨last, ?_, hrest⟩
      rw [← hlast, List.replicate_succ, List.cons_append, blanks.eq_def]
      simp
  obtain ⟨last, hlast, hrest⟩ := spaces n cursor.offset cursor.line cursor.col
  exact ⟨last, by rw [skipBlanks, h, hlast], hrest⟩

end Cursor

theorem Token.Alike.of_layout {t u : Token} (h : t.kind = u.kind) (hl : t.isLayout = true) :
    t.Alike u :=
  ⟨h, fun hw => absurd (hw.symm.trans hl) (by simp)⟩

theorem Token.forall₂_alike_of_dedent {ts us : List Token} (ht : ∀ t ∈ ts, t.kind = .dedent)
    (hu : ∀ u ∈ us, u.kind = .dedent) (hl : ts.length = us.length) :
    List.Forall₂ Token.Alike ts us := by
  refine List.forall₂_iff_get.2 ⟨hl, fun i hi hi' => ?_⟩
  have first := ht _ (List.get_mem ts ⟨i, hi⟩)
  have second := hu _ (List.get_mem us ⟨i, hi'⟩)
  exact .of_layout (first.trans second.symm) (by rw [Token.isLayout, first])

namespace Lexer

variable {lexer : Lexer} {ts layout : List Token} {t : Token} {level' : Nat} {after : List Char}

theorem Gives.append {ts us : List Token} {middle last : Lexer} (h : lexer.Gives ts middle)
    (h' : middle.Gives us last) : lexer.Gives (ts ++ us) last := by
  induction h with
  | nil => exact h'
  | cons hn _ ih => exact .cons hn (ih h')

/-! ## Layout -/

/-- Tokens after which a line is as open as before. -/
def keepsLine (t : Token) : Prop := t.kind = .indent ∨ t.kind = .dedent ∨ t.kind = .eof

theorem noteToken_of_keepsLine (h : keepsLine t) : lexer.noteToken t = lexer := by
  unfold noteToken
  rcases h with h | h | h <;> rw [h]

theorem gives_pending {ps : List Token} (qs : List Token) (hp : lexer.pending = ps ++ qs)
    (h : ∀ t ∈ ps, keepsLine t) : lexer.Gives ps { lexer with pending := qs } := by
  induction ps generalizing lexer with
  | nil =>
    rw [show ({ lexer with pending := qs } : Lexer) = lexer by rw [← List.nil_append qs, ← hp]]
    exact .nil lexer
  | cons t ps ih =>
    have found := Finds.waiting hp
    rw [noteToken_of_keepsLine (h t List.mem_cons_self)] at found
    have more : Gives { lexer with pending := ps ++ qs } ps { lexer with pending := qs } :=
      ih rfl fun u hu => h u (List.mem_cons_of_mem t hu)
    exact .cons found.next_eq more

/-- A lexer that finishes gives the tokens at the end of a text. -/
theorem finish_gives (lexer : Lexer) (hp : lexer.pending = []) :
    ∃ t l ts last, lexer.finish = (some (.ok t), l) ∧ lexer.closingTokens = t :: ts ∧
      (l.noteToken t).Gives ts last := by
  obtain ⟨t, ts, finished, closing⟩ := finish_eq lexer hp
  have keeps : ∀ u ∈ lexer.blocks.map (fun _ => lexer.layoutToken .dedent) ++
      [lexer.layoutToken .eof], keepsLine u := by
    simp only [List.mem_append, List.mem_map, List.mem_singleton]
    rintro _ (⟨_, _, rfl⟩ | rfl)
    · exact .inr (.inl rfl)
    · exact .inr (.inr rfl)
  have waiting : ∀ u ∈ ts, keepsLine u := by
    intro u hu
    have tail : u ∈ lexer.closingTokens.tail := by rwa [closing]
    unfold closingTokens at tail
    split at tail
    · exact keeps u tail
    · exact keeps u (List.mem_of_mem_tail tail)
  refine ⟨t, _, ts, _, finished, closing, gives_pending [] ?_ waiting⟩
  rw [List.append_nil]
  exact noteToken_pending t

/-- Blocks one column apart. -/
def evenBlocks : Nat → List Nat
  | 0 => []
  | level + 1 => (level + 1) :: evenBlocks level

theorem headD_evenBlocks (level : Nat) : (evenBlocks level).headD 0 = level := by
  cases level <;> rfl

/-- The blocks that a line closes, and those that it leaves open. -/
theorem span_evenBlocks (level n : Nat) :
    (evenBlocks (level + n)).dropWhile (level < ·) = evenBlocks level ∧
      ((evenBlocks (level + n)).takeWhile (level < ·)).length = n := by
  induction n with
  | zero =>
    cases level with
    | zero => exact ⟨rfl, rfl⟩
    | succ level => simp [evenBlocks]
  | succ n ih =>
    have wider : level < level + n + 1 := by omega
    rw [← Nat.add_assoc, evenBlocks]
    simp [wider, ih]

/-- The tokens for a line that opens or closes blocks. -/
theorem indentTo_opens (lexer : Lexer) {level : Nat} (hb : lexer.blocks = evenBlocks level)
    (h : Opens level layout level') :
    ∃ ps, lexer.indentTo level' =
        (none, { lexer with blocks := evenBlocks level', pending := lexer.pending ++ ps }) ∧
      List.Forall₂ Token.Alike layout ps ∧ ∀ t ∈ ps, keepsLine t := by
  have width : lexer.width = level := by rw [Lexer.width, hb, headD_evenBlocks]
  cases h with
  | block hk =>
    refine ⟨[lexer.layoutToken .indent], ?_, ?_, ?_⟩
    · rw [indentTo, width, if_pos (Nat.lt_succ_self level), hb]
      rfl
    · exact .cons (.of_layout hk (by simp [Token.isLayout, hk])) .nil
    · exact List.forall_mem_singleton.2 (.inl rfl)
  | close hts =>
    obtain ⟨hdrop, htake⟩ := span_evenBlocks level' layout.length
    refine ⟨((evenBlocks (level' + layout.length)).takeWhile (level' < ·)).map
      fun _ => lexer.layoutToken .dedent, ?_, ?_, ?_⟩
    · have narrower : ¬ level' + layout.length < level' := by omega
      rw [indentTo, width, if_neg narrower]
      simp only [hb, hdrop, Lexer.width, headD_evenBlocks, if_true]
    · refine Token.forall₂_alike_of_dedent hts (fun t ht => ?_) (by rw [List.length_map, htake])
      obtain ⟨_, _, rfl⟩ := List.mem_map.1 ht
      rfl
    · intro t ht
      obtain ⟨_, _, rfl⟩ := List.mem_map.1 ht
      exact .inr (.inl rfl)

/-! ## Lines -/

/-- A lexer at the start of a line, with `level` blocks open. -/
structure Fresh (lexer : Lexer) (level : Nat) (rest : List Char) : Prop where
  pending : lexer.pending = []
  lineStart : lexer.lineStart = true
  depth : lexer.depth = 0
  lineOpen : lexer.lineOpen = false
  blocks : lexer.blocks = evenBlocks level
  rest : lexer.cursor.rest = rest

/-- A lexer in a line, with `level` blocks and `depth` brackets open. -/
structure Within (lexer : Lexer) (level depth : Nat) (lineOpen : Bool) (rest : List Char) :
    Prop where
  pending : lexer.pending = []
  lineStart : lexer.lineStart = false
  depth : lexer.depth = depth
  lineOpen : lexer.lineOpen = lineOpen
  blocks : lexer.blocks = evenBlocks level
  rest : lexer.cursor.rest = rest

section

variable {level depth : Nat} {rest : List Char} {lineOpen : Bool}

theorem Within.inLine (h : lexer.Within level depth lineOpen rest) : lexer.InLine := by
  intro hl
  rw [h.lineStart] at hl
  cases hl.1

/-- A word is given. -/
theorem Within.gives_word {n : Nat}
    (h : lexer.Within level depth lineOpen (List.replicate n ' ' ++ (t.text.toList ++ after)))
    (ht : tokenAt? (t.text.toList ++ after) = some (t.kind, t.text.toList)) :
    ∃ u last, lexer.Gives [u] last ∧ t.Alike u ∧ last.Within level (t.depthPast depth) true after := by
  obtain ⟨c, cs, hhead, hc⟩ := tokenAt?_head ht
  obtain ⟨cursor, hblanks, hcursor⟩ := Cursor.skipBlanks_spaces (0 < lexer.depth)
    (by rw [h.rest, hhead]) hc
  rw [← hhead] at hcursor
  have token : tokenAt? cursor.rest = some (t.kind, t.text.toList) := by rw [hcursor, ht]
  obtain ⟨last, passes, scanned⟩ := scanToken_of_tokenAt { lexer with cursor } token
  have found := Finds.word ⟨h.pending, h.inLine, hblanks⟩ token passes scanned
  refine ⟨_, _, .cons found.next_eq (.nil _), ?_, ?_⟩
  · exact ⟨rfl, fun _ => (String.ofList_toList).symm⟩
  · refine ⟨h.pending, h.lineStart, ?_, rfl, h.blocks, ?_⟩
    · simp only [passToken, h.depth, Token.depthPast]
    · exact List.append_cancel_left (passes.rest.symm.trans hcursor)

/-- The words of a line are given. -/
theorem Within.gives_words {n : Nat} {words : List Token} {text : List Char}
    (hs : Spells after n words text) (h : lexer.Within level depth lineOpen (text ++ after)) :
    ∃ us last, lexer.Gives us last ∧ List.Forall₂ Token.Alike words us ∧
      last.Within level (words.foldl Token.depthPast depth) (lineOpen || !words.isEmpty) after := by
  induction hs generalizing lexer depth lineOpen with
  | nil => exact ⟨[], lexer, .nil _, .nil, by simpa using h⟩
  | @cons n m t ts text ht _ ih =>
    rw [List.append_assoc, List.append_assoc] at h
    obtain ⟨u, middle, given, alike, within⟩ := h.gives_word ht
    obtain ⟨us, last, given', alike', within'⟩ := ih within
    exact ⟨u :: us, last, given.append given', .cons alike alike', by simpa using within'⟩

/-- The end of a line is given. -/
theorem Within.gives_lineEnd {more : List Char} (h : lexer.Within level 0 true ('\n' :: more)) :
    ∃ u last, lexer.Gives [u] last ∧ u.kind = .newline ∧ last.Fresh level more := by
  have blanks : lexer.cursor.skipBlanks (0 < lexer.depth) = (true, lexer.cursor) := by
    rw [Cursor.skipBlanks, h.rest, h.depth]
    unfold Cursor.blanks
    simp [← h.rest]
  have found := Finds.lineEnd ⟨h.pending, h.inLine, blanks⟩ h.rest h.lineOpen
  refine ⟨_, _, .cons found.next_eq (.nil _), rfl, h.pending, rfl, h.depth, rfl, h.blocks, ?_⟩
  rw [atNextLine, Cursor.rest_nextLine, h.rest]
  rfl

theorem alike_closing (h : Closes level ts) (hb : lexer.blocks = evenBlocks level) :
    List.Forall₂ Token.Alike ts
      (lexer.blocks.map (fun _ => lexer.layoutToken .dedent) ++ [lexer.layoutToken .eof]) := by
  rw [hb]
  clear hb
  induction h with
  | eof ht => exact .cons (.of_layout ht (by rw [Token.isLayout, ht])) .nil
  | block ht _ ih => exact .cons (.of_layout ht (by rw [Token.isLayout, ht])) ih

/-- A text that ends at the start of a line is closed. -/
theorem Fresh.gives_closing (h : lexer.Fresh level []) (hc : Closes level ts) :
    ∃ us last, lexer.Gives us last ∧ List.Forall₂ Token.Alike ts us := by
  obtain ⟨t, l, us, last, finished, closing, given⟩ :=
    finish_gives (lexer.atIndented lexer.cursor) h.pending
  have indentation : lexer.cursor.readIndentation = (none, lexer.cursor) := by
    rw [Cursor.readIndentation, h.rest, Cursor.indentation, ← h.rest]
  have found := Finds.ended ⟨h.pending, h.lineStart, h.depth, indentation⟩ finished
  refine ⟨t :: us, last, .cons found.next_eq given, ?_⟩
  have shut : (lexer.atIndented lexer.cursor).lineOpen = false := h.lineOpen
  rw [← closing, closingTokens, shut]
  exact alike_closing hc h.blocks

/-- A text that ends inside brackets is closed. -/
theorem Within.gives_closing (h : lexer.Within level depth true ['\n']) (hd : depth ≠ 0)
    (ht : t.kind = .newline) (hc : Closes level ts) :
    ∃ us last, lexer.Gives us last ∧ List.Forall₂ Token.Alike (t :: ts) us := by
  have positive : 0 < depth := Nat.pos_of_ne_zero hd
  obtain ⟨cursor, blanks, rest⟩ : ∃ cursor,
      lexer.cursor.skipBlanks (0 < lexer.depth) = (true, cursor) ∧ cursor.rest = [] := by
    rw [Cursor.skipBlanks, h.rest, h.depth]
    unfold Cursor.blanks
    simp only [positive, decide_true, if_true]
    unfold Cursor.blanks
    exact ⟨_, rfl, rfl⟩
  obtain ⟨u, l, us, last, finished, closing, given⟩ :=
    finish_gives { lexer with cursor } h.pending
  have found := Finds.finished ⟨h.pending, h.inLine, blanks⟩ rest finished
  refine ⟨u :: us, last, .cons found.next_eq given, ?_⟩
  have isOpen : ({ lexer with cursor } : Lexer).lineOpen = true := h.lineOpen
  rw [← closing, closingTokens, isOpen]
  exact .cons (.of_layout ht (by rw [Token.isLayout, ht])) (alike_closing hc h.blocks)

/-- The layout before a line comes from its indentation. -/
theorem Fresh.gives_layout {c : Char} {cs : List Char}
    (h : lexer.Fresh level (List.replicate level' ' ' ++ c :: cs)) (ho : Opens level layout level')
    (hc : c ∉ gapStarts) :
    ∃ (first : Lexer) (us : List Token) (last : Lexer), lexer.next = first.next ∧
      first.Gives us last ∧ List.Forall₂ Token.Alike layout us ∧
      last.Within level' 0 false (c :: cs) := by
  obtain ⟨cursor, indentation, rest⟩ := Cursor.readIndentation_spaces h.rest hc
  obtain ⟨ps, indented, alike, keeps⟩ :=
    indentTo_opens (lexer.atIndented cursor) h.blocks ho
  refine ⟨_, ps, _, next_eq_of_scan (scan_of_indented ⟨h.pending, h.lineStart, h.depth, indentation⟩
    indented), gives_pending [] ?_ keeps, alike, ?_⟩
  · rw [show (lexer.atIndented cursor).pending = [] from h.pending, List.append_nil]
    rfl
  · exact ⟨rfl, rfl, h.depth, h.lineOpen, rfl, rest⟩

theorem Gives.of_next_eq {first last : Lexer} (hn : lexer.next = first.next)
    (h : first.Gives ts last) (hts : ts ≠ []) : lexer.Gives ts last := by
  cases h with
  | nil => exact absurd rfl hts
  | cons ht h => exact .cons (hn.trans ht) h

/-- The layout and the words of a line are given. -/
theorem Fresh.gives_line {words : List Token} {text : List Char}
    (h : lexer.Fresh level (text ++ after)) (ho : Opens level layout level') (hw : words ≠ [])
    (hs : Spells after level' words text) :
    ∃ us last, lexer.Gives us last ∧ List.Forall₂ Token.Alike (layout ++ words) us ∧
      last.Within level' (words.foldl Token.depthPast 0) true after := by
  cases hs with
  | nil => exact absurd rfl hw
  | @cons n m t ts text ht hs =>
    obtain ⟨c, cs, hhead, hc⟩ := tokenAt?_head ht
    rw [List.append_assoc, List.append_assoc, hhead] at h
    obtain ⟨first, us, middle, hnext, given, alike, within⟩ := h.gives_layout ho hc
    rw [← hhead] at within
    obtain ⟨u, middle', given', alike', within'⟩ := Within.gives_word (n := 0) within ht
    obtain ⟨us', last, given'', alike'', within''⟩ := within'.gives_words hs
    refine ⟨us ++ ([u] ++ us'), last, ?_, ?_, within''⟩
    · exact .of_next_eq hnext (given.append (given'.append given'')) (by simp)
    · exact List.rel_append alike (.cons alike' alike'')

end

end Lexer

/-- **The lexer gives what is written.** -/
theorem Prints.gives {level : Nat} {ts : List Token} {text : List Char} (h : Prints level ts text)
    {lexer : Lexer} (hl : lexer.Fresh level text) :
    ∃ us last, lexer.Gives us last ∧ List.Forall₂ Token.Alike ts us := by
  induction h generalizing lexer with
  | done hc => exact hl.gives_closing hc
  | @line level layout level' words text t rest more ho hw hs hd ht _ ih =>
    obtain ⟨us, middle, given, alike, within⟩ := hl.gives_line ho hw hs
    rw [hd] at within
    obtain ⟨u, middle', given', hu, fresh⟩ := within.gives_lineEnd
    obtain ⟨us', last, given'', alike'⟩ := ih fresh
    have alikeEnd : t.Alike u := .of_layout (ht.trans hu.symm) (by rw [Token.isLayout, ht])
    refine ⟨us ++ ([u] ++ us'), last, given.append (given'.append given''), ?_⟩
    rw [← List.append_assoc]
    exact List.rel_append alike (.cons alikeEnd alike')
  | @unclosed level layout level' words text t rest ho hw hs hd ht hc =>
    obtain ⟨us, middle, given, alike, within⟩ := hl.gives_line ho hw hs
    obtain ⟨us', last, given', alike'⟩ := within.gives_closing hd ht hc
    refine ⟨us ++ us', last, given.append given', ?_⟩
    rw [← List.append_assoc]
    exact List.rel_append alike alike'

namespace Lexer.Ended

variable {ts us : List Token}

theorem append (h : ∀ t ∈ ts, t.kind ≠ .eof) (hu : Ended us) : Ended (ts ++ us) := by
  induction ts with
  | nil => exact hu
  | cons t ts ih =>
    exact .cons (h t List.mem_cons_self) (ih fun u hm => h u (List.mem_cons_of_mem t hm))

theorem of_alike (h : Ended ts) (ha : List.Forall₂ Token.Alike ts us) : Ended us := by
  induction h generalizing us with
  | last ht =>
    obtain ⟨u, rest, htu, hrest, rfl⟩ := List.forall₂_cons_left_iff.1 ha
    cases hrest
    exact .last (htu.kind.symm.trans ht)
  | cons ht _ ih =>
    obtain ⟨u, rest, htu, hrest, rfl⟩ := List.forall₂_cons_left_iff.1 ha
    exact .cons (htu.kind ▸ ht) (ih hrest)

end Lexer.Ended

theorem Closes.ended {level : Nat} {ts : List Token} (h : Closes level ts) : Lexer.Ended ts := by
  induction h with
  | eof ht => exact .last ht
  | block ht _ ih => exact .cons (by simp [ht]) ih

theorem Opens.ne_eof {level level' : Nat} {ts : List Token} (h : Opens level ts level') :
    ∀ t ∈ ts, t.kind ≠ .eof := by
  intro t ht
  cases h with
  | block hk =>
    cases List.mem_singleton.1 ht
    simp [hk]
  | close hts => simp [hts t ht]

theorem Spells.ne_eof {n : Nat} {ts : List Token} {text after : List Char}
    (h : Spells after n ts text) : ∀ t ∈ ts, t.kind ≠ .eof := by
  induction h with
  | nil => simp
  | cons ht _ ih =>
    have kinds := (tokenAt?_front ht).2.2
    refine List.forall_mem_cons.2 ⟨fun he => ?_, ih⟩
    rw [he] at kinds
    simp at kinds

theorem Prints.ended {level : Nat} {ts : List Token} {text : List Char} (h : Prints level ts text) :
    Lexer.Ended ts := by
  induction h with
  | done hc => exact hc.ended
  | line ho _ hs _ ht _ ih => exact .append ho.ne_eof (.append hs.ne_eof (.cons (by simp [ht]) ih))
  | unclosed ho _ hs _ ht hc =>
    exact .append ho.ne_eof (.append hs.ne_eof (.cons (by simp [ht]) hc.ended))

/-- **A source that is written line by line has the tokens it is written with.** -/
theorem Prints.lexes {ts : List Token} {source : Source} (h : Prints 0 ts source.chars)
    (hn : '\x00' ∉ source.chars) : ∃ us, source.Lexes us ∧ List.Forall₂ Token.Alike ts us := by
  have whole : source.chars.takeWhile (· ≠ '\x00') = source.chars :=
    List.takeWhile_eq_self_iff.2 fun c hc => by
      simp only [decide_eq_true_eq]
      rintro rfl
      exact hn hc
  have fresh : (Lexer.start source).Fresh 0 source.chars := ⟨rfl, rfl, rfl, rfl, rfl, whole⟩
  obtain ⟨us, last, given, alike⟩ := h.gives fresh
  exact ⟨us, ⟨h.ended.of_alike alike, last, given⟩, alike⟩

end SdkUsage
