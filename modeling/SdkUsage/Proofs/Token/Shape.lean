/-
The order of layout tokens. A newline comes only after a word, blocks are opened and
closed only between lines, no more blocks are closed than were opened, and the end token
comes when all are closed and is given for ever.

A lexer is in one of three stages (`Stage`): it reads the text, it gives the tokens at the
end of the text, or it has given the end token. What a stage says relates the tokens given
so far to what the lexer remembers, and every token leads from a stage to a stage.
-/
import SdkUsage.Proofs.Token.Layout

namespace SdkUsage

/-! ## Tokens that fit -/

/-- How many tokens of a kind there are. -/
def countKind (kind : TokenKind) (ts : List Token) : Nat := ts.countP (·.kind = kind)

theorem countKind_concat (kind : TokenKind) (ts : List Token) (t : Token) :
    countKind kind (ts ++ [t]) = countKind kind ts + if t.kind = kind then 1 else 0 := by
  simp only [countKind, List.countP_append, List.countP_singleton, decide_eq_true_eq]

/-- A token may come after the tokens `before`. -/
structure Fits (before : List Token) (t : Token) : Prop where
  newline : t.kind = .newline → ∃ u, before.getLast? = some u ∧
    (u.kind = .ident ∨ u.kind = .number ∨ u.kind = .string ∨ u.kind = .symbol)
  block : t.kind = .indent ∨ t.kind = .dedent → ∀ u, before.getLast? = some u →
    u.kind = .newline ∨ u.kind = .indent ∨ u.kind = .dedent
  eof : t.kind = .eof → (∀ u ∈ before, u.kind ≠ .eof) →
    (∀ u, before.getLast? = some u → u.kind = .newline ∨ u.kind = .dedent) ∧
      countKind .indent before = countKind .dedent before
  past : ∀ u ∈ before, u.kind = .eof → t.kind = .eof ∧ t.span = u.span

theorem Opens.refl (level : Nat) : Opens level [] level := @Opens.close level [] (by simp)

namespace Lexer

/-! ## Stages -/

/-- A lexer reads the text: no end token was given, and the blocks opened and not closed
are those that the lexer remembers, up to the tokens that wait. -/
structure Reading (before : List Token) (level : Nat) (l : Lexer) : Prop where
  noEof : ∀ u ∈ before, u.kind ≠ .eof
  lineOpen : l.lineOpen = before.getLast?.any (!·.isLayout)
  lineStart : l.lineStart = true → l.depth = 0 ∧ l.lineOpen = false
  waiting : l.pending ≠ [] → l.lineOpen = false
  count : countKind .indent before = countKind .dedent before + level
  opens : Opens level l.pending l.blocks.length
  indent : ∀ u, before.getLast? = some u → u.kind = .indent → 0 < level

/-- Nothing is left to read, and no block or line is open. -/
structure Done (l : Lexer) : Prop where
  rest : l.cursor.rest = []
  blocks : l.blocks = []
  lineStart : l.lineStart = false
  lineOpen : l.lineOpen = false

/-- A lexer gives the tokens at the end of the text. -/
structure Closing (before : List Token) (level : Nat) (l : Lexer) : Prop where
  done : l.Done
  noEof : ∀ u ∈ before, u.kind ≠ .eof
  last : ∃ u, before.getLast? = some u ∧ (u.kind = .newline ∨ u.kind = .dedent)
  count : countKind .indent before = countKind .dedent before + level
  closes : Closes level l.pending
  eof : ∀ u ∈ l.pending, u.kind = .eof → u = l.layoutToken .eof

/-- A lexer has given the end token. -/
structure Over (before : List Token) (l : Lexer) : Prop where
  done : l.Done
  pending : l.pending = []
  eof : ∀ u ∈ before, u.kind = .eof → u = l.layoutToken .eof
  count : countKind .indent before = countKind .dedent before
  given : ∃ u ∈ before, u.kind = .eof

/-- The stages of a lexer that has given the tokens `before`. -/
inductive Stage (before : List Token) (l : Lexer) : Prop
  | reading (level : Nat) : Reading before level l → Stage before l
  | closing (level : Nat) : Closing before level l → Stage before l
  | past : Over before l → Stage before l

variable {l l' : Lexer} {before : List Token} {t : Token} {level : Nat}

theorem stage_start (source : Source) : Stage [] (Lexer.start source) :=
  .reading 0 ⟨by simp, rfl, fun _ => ⟨rfl, rfl⟩, fun h => absurd rfl h, rfl,
    .refl 0, by simp⟩

/-- In every stage no more blocks were closed than opened. -/
theorem Stage.balanced (h : Stage before l) :
    countKind .dedent before ≤ countKind .indent before := by
  cases h with
  | reading level h => have := h.count; omega
  | closing level h => have := h.count; omega
  | past h => exact Nat.le_of_eq h.count.symm

namespace Reading

/-- Where no tokens wait, the lexer remembers every open block. -/
theorem level_eq (h : Reading before level l) (hp : l.pending = []) : level = l.blocks.length := by
  have opens := h.opens
  rw [hp] at opens
  generalize hb : l.blocks.length = n at opens
  cases opens with
  | close => rfl

/-- Where blanks are passed, no indentation is to be read. -/
theorem inLine {cursor : Cursor} (h : Reading before level l) (hr : l.Reaches cursor) :
    l.lineStart = false := by
  by_contra hs
  rw [Bool.not_eq_false] at hs
  exact hr.inLine ⟨hs, (h.lineStart hs).1⟩

/-- Between lines the token given last, if there is one, is layout. -/
theorem last_layout (h : Reading before level l) (ho : l.lineOpen = false) :
    ∀ u, before.getLast? = some u → u.kind = .newline ∨ u.kind = .indent ∨ u.kind = .dedent := by
  intro u hu
  have open_eq := h.lineOpen
  rw [ho, hu, Option.any_some] at open_eq
  have ne := h.noEof u (List.mem_of_getLast? hu)
  unfold Token.isLayout at open_eq
  cases hk : u.kind with
  | newline | indent | dedent => simp
  | eof => exact absurd hk ne
  | symbol | string | number | ident => simp [hk] at open_eq

/-- In a line the token given last is a word. -/
theorem last_word (h : Reading before level l) (ho : l.lineOpen = true) :
    ∃ u, before.getLast? = some u ∧
      (u.kind = .ident ∨ u.kind = .number ∨ u.kind = .string ∨ u.kind = .symbol) := by
  have open_eq := h.lineOpen
  cases hu : before.getLast? with
  | none => simp [ho, hu] at open_eq
  | some u =>
    rw [ho, hu, Option.any_some] at open_eq
    unfold Token.isLayout at open_eq
    refine ⟨u, rfl, ?_⟩
    cases hk : u.kind with
    | symbol | string | number | ident => simp
    | newline | indent | dedent | eof => simp [hk] at open_eq

/-- A token that opens or closes a block fits between lines. -/
theorem fits_block (h : Reading before level l) (ho : l.lineOpen = false)
    (ht : t.kind = .indent ∨ t.kind = .dedent) : Fits before t where
  newline := fun hk => by rcases ht with ht | ht <;> cases ht.symm.trans hk
  block := fun _ => h.last_layout ho
  eof := fun hk => by rcases ht with ht | ht <;> cases ht.symm.trans hk
  past := fun u hu hk => absurd hk (h.noEof u hu)

theorem fits_newline (h : Reading before level l) (ho : l.lineOpen = true)
    (ht : t.kind = .newline) : Fits before t where
  newline := fun _ => h.last_word ho
  block := fun hk => by rcases hk with hk | hk <;> cases ht.symm.trans hk
  eof := fun hk => by cases ht.symm.trans hk
  past := fun u hu hk => absurd hk (h.noEof u hu)

theorem noEof_concat (h : Reading before level l) (ht : t.kind ≠ .eof) :
    ∀ u ∈ before ++ [t], u.kind ≠ .eof := by
  intro u hu
  rcases List.mem_append.1 hu with hu | hu
  · exact h.noEof u hu
  · cases List.mem_singleton.1 hu
    exact ht

/-- A block that waited is opened or closed. -/
theorem waiting_step {ts : List Token} (h : Reading before level l) (hp : l.pending = t :: ts) :
    Fits before t ∧ Stage (before ++ [t]) (noteToken t { l with pending := ts }) := by
  have closed : l.lineOpen = false := h.waiting (by simp [hp])
  have start : l.lineStart = true → l.depth = 0 ∧ l.lineOpen = false := h.lineStart
  have opens := h.opens
  rw [hp] at opens
  generalize hb : l.blocks.length = n at opens
  cases opens with
  | @block level t ht =>
    refine ⟨h.fits_block closed (.inl ht), ?_⟩
    rw [noteToken_of_keepsLine (.inl ht)]
    refine .reading (level + 1) ⟨h.noEof_concat (by simp [ht]), ?_, start, by simp, ?_, ?_,
      fun _ _ _ => Nat.succ_pos level⟩
    · simp [closed, Token.isLayout, ht]
    · simp only [countKind_concat, ht, if_pos, h.count, reduceCtorEq, if_false]
      omega
    · rw [show ({ l with pending := [] } : Lexer).blocks.length = level + 1 from hb]
      exact .refl (level + 1)
  | @close _ ts hts =>
    obtain ⟨ht, hts⟩ := List.forall_mem_cons.1 hts
    refine ⟨h.fits_block closed (.inr ht), ?_⟩
    rw [noteToken_of_keepsLine (.inr (.inl ht))]
    refine .reading (n + ts.length) ⟨h.noEof_concat (by simp [ht]), ?_, start,
      fun _ => closed, ?_, ?_, ?_⟩
    · simp [closed, Token.isLayout, ht]
    · simp only [countKind_concat, ht, if_pos, h.count, reduceCtorEq, if_false, List.length_cons]
      omega
    · rw [show ({ l with pending := ts } : Lexer).blocks.length = n from hb]
      exact .close hts
    · intro u hu hk
      rw [List.getLast?_concat] at hu
      cases hu
      cases ht.symm.trans hk

/-- The end of a text is reached: the line is closed, then the blocks, and the end token is
given. -/
theorem finish_step (h : Reading before level l) (hp : l.pending = []) (hr : l.cursor.rest = [])
    (hs : l.lineStart = false) (hf : l.finish = (some (.ok t), l')) :
    Fits before t ∧ Stage (before ++ [t]) (l'.noteToken t) := by
  have blocks := h.level_eq hp
  have dedents (ws : List Nat) : Closes ws.length
      (ws.map (fun _ => l.layoutToken .dedent) ++ [l.layoutToken .eof]) := closes_closing l ws
  have eofs (ws : List Nat) : ∀ u ∈ ws.map (fun _ => l.layoutToken .dedent) ++ [l.layoutToken .eof],
      u.kind = .eof → u = l.layoutToken .eof := by
    intro u hu hk
    rcases List.mem_append.1 hu with hu | hu
    · obtain ⟨_, -, rfl⟩ := List.mem_map.1 hu
      cases hk
    · exact List.mem_singleton.1 hu
  unfold finish at hf
  cases ho : l.lineOpen with
  | true =>
    simp only [ho, if_true, List.singleton_append] at hf
    cases hf
    refine ⟨h.fits_newline ho rfl, .closing level ⟨⟨hr, rfl, hs, rfl⟩,
      h.noEof_concat (by simp [layoutToken]), ⟨_, List.getLast?_concat, .inl rfl⟩, ?_, ?_,
      eofs l.blocks⟩⟩
    · simp [countKind_concat, layoutToken, h.count]
    · rw [blocks]
      exact dedents l.blocks
  | false =>
    cases hb : l.blocks with
    | nil =>
      simp only [ho, hb, Bool.false_eq_true, if_false, List.map_nil, List.append_nil] at hf
      cases hf
      have zero : level = 0 := by rw [blocks, hb]; rfl
      have same : countKind .indent before = countKind .dedent before := by
        have := h.count
        omega
      refine ⟨⟨by rintro ⟨⟩, by rintro (⟨⟨⟩⟩ | ⟨⟨⟩⟩), fun _ _ => ⟨fun u hu => ?_, same⟩,
        fun u hu hk => absurd hk (h.noEof u hu)⟩, .past ⟨⟨hr, rfl, hs, rfl⟩, hp, ?_, ?_, ?_⟩⟩
      · rcases h.last_layout ho u hu with hk | hk | hk
        · exact .inl hk
        · have := h.indent u hu hk
          omega
        · exact .inr hk
      · intro u hu hk
        rcases List.mem_append.1 hu with hu | hu
        · exact absurd hk (h.noEof u hu)
        · exact List.mem_singleton.1 hu
      · simp [countKind_concat, layoutToken, same]
      · exact ⟨l.layoutToken .eof, by simp, rfl⟩
    | cons w ws =>
      simp only [ho, hb, Bool.false_eq_true, if_false, List.map_cons, List.nil_append] at hf
      cases hf
      refine ⟨h.fits_block ho (.inr rfl), .closing ws.length ⟨⟨hr, rfl, hs, rfl⟩,
        h.noEof_concat (by simp [layoutToken]), ⟨_, List.getLast?_concat, .inr rfl⟩, ?_,
        dedents ws, eofs ws⟩⟩
      have total : level = ws.length + 1 := by rw [blocks, hb]; rfl
      simp only [countKind_concat, layoutToken, h.count, reduceCtorEq, if_false, if_true]
      omega

end Reading

/-- A token at the end of the text. -/
theorem Closing.waiting_step {ts : List Token} (h : Closing before level l)
    (hp : l.pending = t :: ts) :
    Fits before t ∧ Stage (before ++ [t]) (noteToken t { l with pending := ts }) := by
  obtain ⟨last, hlast, hkind⟩ := h.last
  have given : ∀ u, before.getLast? = some u → u.kind = .newline ∨ u.kind = .dedent := by
    intro u hu
    cases hlast.symm.trans hu
    exact hkind
  have done : Done { l with pending := ts } := ⟨h.done.rest, h.done.blocks, h.done.lineStart,
    h.done.lineOpen⟩
  have past : ∀ u ∈ before, u.kind = .eof → t.kind = .eof ∧ t.span = u.span :=
    fun u hu hk => absurd hk (h.noEof u hu)
  have closes := h.closes
  have eof := h.eof
  have count := h.count
  rw [hp] at closes eof
  cases closes with
  | eof ht =>
    have same : t = l.layoutToken .eof := eof t (by simp) ht
    refine ⟨⟨fun hk => ?_, fun hk => ?_, fun _ _ => ⟨given, count⟩, past⟩, ?_⟩
    · cases ht.symm.trans hk
    · rcases hk with hk | hk <;> cases ht.symm.trans hk
    rw [noteToken_of_keepsLine (.inr (.inr ht))]
    refine .past ⟨done, rfl, fun u hu hk => ?_, ?_, ⟨t, by simp, ht⟩⟩
    · rcases List.mem_append.1 hu with hu | hu
      · exact absurd hk (h.noEof u hu)
      · exact (List.mem_singleton.1 hu).trans same
    · simp [countKind_concat, ht, count]
  | @block level _ _ ht hts =>
    refine ⟨⟨fun hk => ?_, fun _ u hu => (given u hu).imp_right .inr, fun hk => ?_, past⟩, ?_⟩
    · cases ht.symm.trans hk
    · cases ht.symm.trans hk
    rw [noteToken_of_keepsLine (.inr (.inl ht))]
    refine .closing level ⟨done, fun u hu => ?_, ⟨t, List.getLast?_concat, .inr ht⟩, ?_,
      hts, fun u hu hk => eof u (List.mem_cons_of_mem t hu) hk⟩
    · rcases List.mem_append.1 hu with hu | hu
      · exact h.noEof u hu
      · rw [List.mem_singleton.1 hu, ht]
        simp
    · simp only [countKind_concat, ht, count, reduceCtorEq, if_false, if_true]
      omega

theorem Closing.pending_ne (h : Closing before level l) : l.pending ≠ [] := by
  intro hp
  have closes := h.closes
  rw [hp] at closes
  cases closes

/-- Where nothing is left to read, blanks lead nowhere else. -/
theorem Done.reaches {cursor : Cursor} (h : l.Done) (hr : l.Reaches cursor) : cursor = l.cursor := by
  have blanks := hr.blanks
  rw [Cursor.skipBlanks, h.rest, Cursor.blanks] at blanks
  rw [← (Prod.mk.inj blanks).2, ← h.rest]

/-- After the end token it comes again. -/
theorem Over.finish_step (h : Over before l) (hf : l.finish = (some (.ok t), l')) :
    Fits before t ∧ Stage (before ++ [t]) (l'.noteToken t) := by
  have again : l.finish = (some (.ok (l.layoutToken .eof)), l) := by
    have same : ({ l with blocks := [], lineOpen := false } : Lexer) = l := by
      rw [← h.done.blocks, ← h.done.lineOpen]
    simp [finish, h.done.blocks, h.done.lineOpen, same]
  cases again.symm.trans hf
  obtain ⟨u, hu, hk⟩ := h.given
  refine ⟨⟨by rintro ⟨⟩, by rintro (⟨⟨⟩⟩ | ⟨⟨⟩⟩), fun _ hn => absurd hk (hn u hu), ?_⟩,
    .past ⟨h.done, h.pending, ?_, ?_, ⟨u, by simp [hu], hk⟩⟩⟩
  · intro v hv hk
    rw [h.eof v hv hk]
    exact ⟨rfl, rfl⟩
  · intro v hv hk
    rcases List.mem_append.1 hv with hv | hv
    · exact h.eof v hv hk
    · exact List.mem_singleton.1 hv
  · simp [countKind_concat, layoutToken, h.count]

/-! ## From stage to stage -/

/-- The indentation of a line is read between lines. -/
theorem Reading.indented {width : Nat} {cursor : Cursor} (h : Reading before level l)
    (hs : l.Starts (some width) cursor) (hi : (l.atIndented cursor).indentTo width = (none, l')) :
    Reading before level l' := by
  obtain ⟨-, closed⟩ := h.lineStart hs.lineStart
  have blocks := h.level_eq hs.pending
  have lineOpen := indentTo_lineOpen (l.atIndented cursor) width
  have lineStart := indentTo_lineStart (l.atIndented cursor) width
  have pending : (l.atIndented cursor).pending = [] := hs.pending
  have opens := opens_of_indentTo pending hi
  rw [hi] at lineOpen lineStart
  have lineOpen : l'.lineOpen = l.lineOpen := lineOpen
  refine ⟨h.noEof, lineOpen.trans h.lineOpen, fun hl => ?_, fun _ => lineOpen.trans closed, h.count,
    ?_, h.indent⟩
  · cases lineStart.symm.trans hl
  · rw [blocks]
    exact opens

/-- After a line there is the start of another. -/
theorem Reading.atNextLine {cursor : Cursor} {cs : List Char} (h : Reading before level l)
    (hr : l.Reaches cursor) (hline : cursor.rest = '\n' :: cs) (ho : l.lineOpen = false) :
    Reading before level (l.atNextLine cursor) :=
  ⟨h.noEof, ho.symm.trans h.lineOpen, fun _ => ⟨hr.depth hline, rfl⟩, fun _ => rfl, h.count,
    h.opens, h.indent⟩

/-- **Every token fits and leads from a stage to a stage.** -/
theorem Finds.stage (hf : l.Finds t l') (h : Stage before l) :
    Fits before t ∧ Stage (before ++ [t]) l' := by
  induction hf with
  | waiting hp =>
    cases h with
    | reading level h => exact h.waiting_step hp
    | closing level h => exact h.waiting_step hp
    | past h => cases h.pending.symm.trans hp
  | indented hs hi _ ih =>
    cases h with
    | reading level h => exact ih (.reading level (h.indented hs hi))
    | closing level h => exact absurd hs.pending h.pending_ne
    | past h => cases h.done.lineStart.symm.trans hs.lineStart
  | @ended l cursor t l' hs hf =>
    cases h with
    | reading level h =>
      have moved : Reading before level (l.atIndented cursor) :=
        ⟨h.noEof, h.lineOpen, by rintro ⟨⟩, h.waiting, h.count, h.opens, h.indent⟩
      exact moved.finish_step hs.pending hs.rest rfl hf
    | closing level h => exact absurd hs.pending h.pending_ne
    | past h => cases h.done.lineStart.symm.trans hs.lineStart
  | @finished l cursor t l' hr hnil hf =>
    cases h with
    | reading level h =>
      have moved : Reading before level { l with cursor } :=
        ⟨h.noEof, h.lineOpen, h.lineStart, h.waiting, h.count, h.opens, h.indent⟩
      exact moved.finish_step hr.pending hnil (h.inLine hr) hf
    | closing level h => exact absurd hr.pending h.pending_ne
    | past h =>
      have here : ({ l with cursor } : Lexer) = l := by rw [h.done.reaches hr]
      rw [here] at hf
      exact h.finish_step hf
  | @lineEnd l cursor cs hr hline hopen =>
    cases h with
    | reading level h =>
      refine ⟨h.fits_newline hopen rfl, .reading level
        ⟨h.noEof_concat (by simp [lineEndToken]), ?_, fun _ => ⟨hr.depth hline, rfl⟩, fun _ => rfl,
          ?_, h.opens, ?_⟩⟩
      · simp [atNextLine, lineEndToken, Token.isLayout]
      · simp [countKind_concat, lineEndToken, h.count]
      · simp [lineEndToken]
    | closing level h => exact absurd hr.pending h.pending_ne
    | past h => rw [h.done.reaches hr, h.done.rest] at hline; cases hline
  | emptyLine hr hline hclosed _ ih =>
    cases h with
    | reading level h => exact ih (.reading level (h.atNextLine hr hline hclosed))
    | closing level h => exact absurd hr.pending h.pending_ne
    | past h => rw [h.done.reaches hr, h.done.rest] at hline; cases hline
  | @word l cursor kind text last hr ht hpasses hs =>
    obtain ⟨-, -, kinds⟩ := tokenAt?_front ht
    have written : (tokenBetween kind text cursor last).isLayout = false := by
      simp only [List.mem_cons, List.not_mem_nil, or_false] at kinds
      rcases kinds with rfl | rfl | rfl | rfl <;> rfl
    have other (k : TokenKind) (hk : k ∉ [.string, .number, .ident, .symbol]) : kind ≠ k := by
      rintro rfl
      exact hk kinds
    cases h with
    | reading level h =>
      refine ⟨⟨fun hk => absurd hk (other _ (by decide)), ?_, fun hk => absurd hk (other _ (by decide)),
        fun u hu hk => absurd hk (h.noEof u hu)⟩, .reading level
        ⟨h.noEof_concat (other _ (by decide)), ?_, ?_, ?_, ?_, h.opens, ?_⟩⟩
      · rintro (hk | hk)
        · exact absurd hk (other _ (by decide))
        · exact absurd hk (other _ (by decide))
      · simp [written]
      · intro hl
        cases (h.inLine hr).symm.trans hl
      · exact fun hp => absurd hr.pending hp
      · simp [countKind_concat, tokenBetween, other .indent (by decide),
          other .dedent (by decide), h.count]
      · intro u hu hk
        rw [List.getLast?_concat] at hu
        cases hu
        exact absurd hk (other _ (by decide))
    | closing level h => exact absurd hr.pending h.pending_ne
    | past h => rw [h.done.reaches hr, h.done.rest] at ht; cases ht

/-- A run leads from a stage to a stage, and each of its tokens fits after those before it. -/
theorem Gives.stage {ts : List Token} {last : Lexer} (hg : l.Gives ts last) (h : Stage before l) :
    Stage (before ++ ts) last ∧
      ∀ front t back, ts = front ++ t :: back → Fits (before ++ front) t := by
  induction hg generalizing before with
  | nil l => exact ⟨by rwa [List.append_nil], by simp⟩
  | @cons l u l' us last hn _ ih =>
    obtain ⟨fits, stage⟩ := (next_eq_ok_iff.1 hn).stage h
    obtain ⟨final, rest⟩ := ih stage
    rw [List.append_assoc] at final
    refine ⟨final, fun front t back heq => ?_⟩
    cases front with
    | nil =>
      cases heq
      rwa [List.append_nil]
    | cons v front =>
      obtain ⟨rfl, hus⟩ := List.cons.inj heq
      have later := rest front t back hus
      rwa [List.append_assoc] at later

/-- The first tokens of a run are those of a shorter run. -/
theorem Gives.of_append {ts us : List Token} {last : Lexer} (h : l.Gives (ts ++ us) last) :
    ∃ middle, l.Gives ts middle ∧ middle.Gives us last := by
  induction ts generalizing l with
  | nil => exact ⟨l, .nil l, h⟩
  | cons t ts ih =>
    obtain ⟨between, hn, h⟩ := h.uncons
    obtain ⟨middle, hts, hus⟩ := ih h
    exact ⟨middle, .cons hn hts, hus⟩

/-- A lexer that has given the end token gives it again. -/
theorem Over.next (h : Over before l) {u : Token} (hu : u ∈ before) (hk : u.kind = .eof) :
    ∃ l', l.next = (.ok u, l') := by
  have blanks : l.cursor.skipBlanks (0 < l.depth) = (true, l.cursor) := by
    rw [Cursor.skipBlanks, h.done.rest, Cursor.blanks, ← h.done.rest]
  have reaches : l.Reaches l.cursor :=
    ⟨h.pending, fun hl => Bool.false_ne_true (h.done.lineStart.symm.trans hl.1), blanks⟩
  have given : l.finish = (some (.ok u), { l with blocks := [], lineOpen := false }) := by
    rw [h.eof u hu hk]
    simp [finish, h.done.blocks, h.done.lineOpen]
  exact ⟨_, (Finds.finished reaches h.done.rest given).next_eq⟩

end Lexer

/-! ## Tokens of a source -/

/-- **Layout tokens are well formed.** Every token that a source gives fits after those before
it, in every prefix no more blocks are closed than opened, and once the end token was given it
is given again. -/
theorem Source.layout_well_formed (source : Source) {ts : List Token} {last : Lexer}
    (h : (Lexer.start source).Gives ts last) :
    (∀ before t after, ts = before ++ t :: after → Fits before t) ∧
    (∀ before, before <+: ts → countKind .dedent before ≤ countKind .indent before) ∧
    ∀ t ∈ ts, t.kind = .eof → ∃ later, last.next = (.ok t, later) := by
  obtain ⟨stage, fits⟩ := h.stage (Lexer.stage_start source)
  refine ⟨fun before t after heq => fits before t after heq, ?_, fun t ht hk => ?_⟩
  · rintro before ⟨after, rfl⟩
    obtain ⟨middle, first, -⟩ := h.of_append
    exact (first.stage (Lexer.stage_start source)).1.balanced
  · rw [List.nil_append] at stage
    cases stage with
    | reading level h => exact absurd hk (h.noEof t ht)
    | closing level h => exact absurd hk (h.noEof t ht)
    | past h => exact h.next ht hk

/-- A text with joined lines that hold nothing, lines inside brackets, a bracket too many and
one that stays open, and an end before its end. -/
def Source.tangledLines : Source where
  file := "main.py"
  text := "  \\\n\nif x:\n\tf(1,\n2 # c\n )\n\n  # d\n\t  if y: ]\n\t\\\r\n\n(z\n\x00 w\n"

theorem Source.tangledLines_well_formed : ∃ ts last, (Lexer.start tangledLines).Gives ts last ∧
    ts.length = 26 ∧ (∃ t ∈ ts, t.kind = .eof) ∧
    (∀ before t after, ts = before ++ t :: after → Fits before t) ∧
    (∀ before, before <+: ts → countKind .dedent before ≤ countKind .indent before) ∧
    ∀ t ∈ ts, t.kind = .eof → ∃ later, last.next = (.ok t, later) := by
  have found : ((Lexer.start tangledLines).tokens? 60).map
      (fun ts => (ts.length, ts.any (·.kind = .eof))) = some (26, true) := by
    decide +kernel
  obtain ⟨ts, hts, heq⟩ := Option.map_eq_some_iff.1 found
  obtain ⟨length, any⟩ := Prod.mk.inj heq
  obtain ⟨-, last, gives⟩ := Lexer.gives_of_tokens hts
  exact ⟨ts, last, gives, length, by simpa using any, layout_well_formed tangledLines gives⟩

end SdkUsage
