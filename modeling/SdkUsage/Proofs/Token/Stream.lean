/-
The tokens of a text. `Gives` lists what a lexer gives one after another, and
`Alike` says which tokens the grammar cannot tell apart.

Every token but the end token takes something away from the lexer, so that
`Lexer.remaining`, by which the grammar bounds its rules, is at least the number of
tokens to come. And a token opens or closes brackets exactly if its word is one.
-/
import SdkUsage.Proofs.Token.Find

namespace SdkUsage

/-! ## Tokens -/

/-- Tokens that stand for layout. -/
def Token.isLayout (token : Token) : Bool :=
  match token.kind with
  | .newline | .indent | .dedent | .eof => true
  | .symbol | .string | .number | .ident => false

/-- Tokens of one kind, with one text if they are not layout. -/
structure Token.Alike (t u : Token) : Prop where
  kind : t.kind = u.kind
  text : t.isLayout = false → t.text = u.text

instance (t u : Token) : Decidable (t.Alike u) :=
  decidable_of_iff (t.kind = u.kind ∧ (t.isLayout = false → t.text = u.text))
    ⟨fun h => ⟨h.1, h.2⟩, fun h => ⟨h.kind, h.text⟩⟩

namespace Token

variable {t u : Token}

theorem Alike.refl (t : Token) : t.Alike t := ⟨rfl, fun _ => rfl⟩

theorem Alike.isLayout_eq (h : t.Alike u) : t.isLayout = u.isLayout := by
  unfold isLayout
  rw [h.kind]

theorem Alike.symm (h : t.Alike u) : u.Alike t :=
  ⟨h.kind.symm, fun hu => (h.text (h.isLayout_eq.trans hu)).symm⟩

theorem Alike.word_eq (h : t.Alike u) : t.word = u.word := by
  have text := h.text
  unfold isLayout at text
  unfold word
  rw [← h.kind]
  cases hk : t.kind with
  | symbol | number | ident => exact text (by rw [hk])
  | string | newline | indent | dedent | eof => rfl

/-- Layout has no word. -/
theorem isLayout_of_word_ne (h : t.word ≠ "") : t.isLayout = false := by
  unfold word at h
  unfold isLayout
  cases hk : t.kind with
  | symbol | string | number | ident => rfl
  | newline | indent | dedent | eof =>
    rw [hk] at h
    exact absurd rfl h

theorem word_eq_of_isLayout (h : t.isLayout = true) : t.word = "" := by
  by_contra hw
  cases (isLayout_of_word_ne hw).symm.trans h

theorem isLayout_of_eof (h : t.kind = .eof) : t.isLayout = true := by
  unfold isLayout
  rw [h]

end Token

/-- A text starts with a character of a name. -/
def StartsName (text : String) : Prop := ∃ c ∈ text.toList.head?, Cursor.isWordChar c = true

theorem StartsName.append {text : String} (h : StartsName text) (rest : String) :
    StartsName (text ++ rest) := by
  obtain ⟨c, hc, hw⟩ := h
  refine ⟨c, ?_, hw⟩
  rw [String.toList_append, List.head?_append]
  simp [Option.mem_def.1 hc]

theorem StartsName.ne_star {text : String} (h : StartsName text) : text ≠ "*" := by
  rintro rfl
  obtain ⟨c, hc, hw⟩ := h
  cases hc
  revert hw
  decide

/-- A name token holds a name. -/
def Token.Named (token : Token) : Prop := token.kind = .ident → StartsName token.text

/-- A token that stands at the front of some text. -/
def Token.Spelled (t : Token) : Prop :=
  ∃ after, tokenAt? (t.text.toList ++ after) = some (t.kind, t.text.toList)

theorem Token.Spelled.named {token : Token} (h : token.Spelled) : token.Named := by
  intro hk
  obtain ⟨after, ht⟩ := h
  rw [hk] at ht
  generalize token.text.toList ++ after = text at ht
  generalize hc : token.text.toList = cs at ht
  cases tokenAt?_cases ht with
  | name hw =>
    obtain ⟨c, cs, heq, first⟩ := exists_wordAt hw
    exact ⟨c, by rw [hc, heq]; rfl, first⟩

/-- A token whose word is no bracket. -/
def Token.Plain (token : Token) : Prop :=
  ∀ depth, Lexer.depthAfter token.word.toList depth = depth

namespace Lexer

/-! ## What is left -/

/-- A lexer has only layout waiting. -/
def Quiet (lexer : Lexer) : Prop := ∀ t ∈ lexer.pending, t.isLayout = true

/-- Bounds the number of tokens before the end token. -/
def left (lexer : Lexer) : Nat :=
  2 * lexer.cursor.rest.length + lexer.pending.countP (·.kind ≠ .eof) + lexer.blocks.length
    + (if lexer.lineOpen then 1 else 0)

theorem left_le_remaining (lexer : Lexer) : lexer.left ≤ lexer.remaining := by
  have := lexer.pending.countP_le_length (p := fun t => t.kind ≠ .eof)
  unfold left remaining
  omega

end Lexer

namespace Lexer

variable {lexer after : Lexer} {cursor : Cursor}

section

variable {after : Lexer} {t : Token}

theorem quiet_of_pending (h : lexer.pending = []) : lexer.Quiet := by
  intro t ht
  rw [h] at ht
  cases ht

/-- The tokens for an indentation are layout. -/
theorem indentTo_quiet (hl : lexer.Quiet) (width : Nat) : (lexer.indentTo width).2.Quiet := by
  obtain ⟨_, kinds, hkinds, after, -⟩ := lexer.indentTo_spec width
  rw [after]
  intro t ht
  rcases List.mem_append.1 ht with ht | ht
  · exact hl t ht
  · obtain ⟨kind, hkind, rfl⟩ := List.mem_map.1 ht
    rcases hkinds kind hkind with rfl | rfl <;> rfl

theorem isLayout_closing (h : t ∈ lexer.closingTokens) : t.isLayout = true := by
  obtain ⟨kind, hkind, rfl⟩ := mem_closingTokens h
  simp only [List.mem_cons, List.not_mem_nil, or_false] at hkind
  rcases hkind with rfl | rfl | rfl <;> rfl

/-! ## What a token takes away -/

/-- A line that is indented has blanks in front. -/
theorem length_indentation_lt {width : Nat} {rest : List Char} {offset line col w : Nat}
    (h : (Cursor.indentation width false rest offset line col).1 = some w) (hw : width < w) :
    (Cursor.indentation width false rest offset line col).2.rest.length < rest.length := by
  unfold Cursor.indentation at h ⊢
  split
  · cases h
  · next c cs =>
    have shorter : ∀ width comment offset line col,
        (Cursor.indentation width comment cs offset line col).2.rest.length < (c :: cs).length :=
      fun width comment offset line col =>
        Nat.lt_succ_of_le (Cursor.length_indentation width comment cs offset line col)
    split_ifs
    all_goals first
      | exact shorter ..
      | simp_all

/-- A line that opens a block adds a token and a block, one that closes blocks turns them
into tokens. -/
theorem indentTo_left (width : Nat) :
    (lexer.indentTo width).2.left = lexer.left + (if lexer.width < width then 2 else 0) := by
  unfold indentTo
  split
  · next h =>
    simp only [left, List.countP_append, List.length_cons]
    have : ([lexer.layoutToken .indent].countP (·.kind ≠ .eof)) = 1 := rfl
    omega
  · next h =>
    have closed : ((lexer.blocks.takeWhile (width < ·)).map
        fun _ => lexer.layoutToken .dedent).countP (·.kind ≠ .eof)
        = (lexer.blocks.takeWhile (width < ·)).length := by
      rw [List.countP_eq_length.2 fun t ht => by
        obtain ⟨_, _, rfl⟩ := List.mem_map.1 ht
        simp [layoutToken], List.length_map]
    have parts := congrArg List.length
      (List.takeWhile_append_dropWhile (p := (width < ·)) (l := lexer.blocks))
    rw [List.length_append] at parts
    dsimp only
    split
    all_goals
      simp only [left, List.countP_append, closed]
      omega

/-- A lexer that was moved on, with less text before it. -/
theorem left_le_of_rest {start : Bool} (h : cursor.rest.length ≤ lexer.cursor.rest.length) :
    left { lexer with cursor, lineStart := start } ≤ lexer.left := by
  unfold left
  dsimp only
  omega

theorem Reaches.length_le (h : lexer.Reaches cursor) :
    cursor.rest.length ≤ lexer.cursor.rest.length := by
  have shorter := Cursor.length_blanks (0 < lexer.depth) false lexer.cursor.rest
    lexer.cursor.offset lexer.cursor.line lexer.cursor.col
  rwa [show Cursor.blanks _ _ _ _ _ _ = (true, cursor) from h.blanks] at shorter

theorem Starts.length_le {width : Option Nat} (h : lexer.Starts width cursor) :
    cursor.rest.length ≤ lexer.cursor.rest.length := by
  have shorter := Cursor.length_indentation 0 false lexer.cursor.rest lexer.cursor.offset
    lexer.cursor.line lexer.cursor.col
  rwa [show Cursor.indentation _ _ _ _ _ _ = (width, cursor) from h.indentation] at shorter

/-- Reading an indentation leaves no more than there was. -/
theorem Starts.left_le {width : Nat} (h : lexer.Starts (some width) cursor)
    (hi : (lexer.atIndented cursor).indentTo width = (none, after)) : after.left ≤ lexer.left := by
  have left := @indentTo_left (lexer.atIndented cursor) width
  have moved : (lexer.atIndented cursor).left + 2 * lexer.cursor.rest.length =
      lexer.left + 2 * cursor.rest.length := by
    unfold Lexer.left atIndented
    dsimp only
    omega
  have shorter := h.length_le
  rw [hi] at left
  simp only at left
  split at left
  · next hwidth =>
    have indented := length_indentation_lt (congrArg Prod.fst h.indentation)
      (Nat.lt_of_le_of_lt (Nat.zero_le _) hwidth)
    rw [show Cursor.indentation _ _ _ _ _ _ = (some width, cursor) from h.indentation] at indented
    simp only at indented
    omega
  · omega

/-- Layout may close a line, but opens none. -/
theorem noteToken_left_le (ht : t.isLayout = true) : (lexer.noteToken t).left ≤ lexer.left := by
  unfold Token.isLayout at ht
  unfold noteToken
  cases hk : t.kind with
  | newline =>
    unfold left
    simp
  | indent | dedent | eof => exact Nat.le_refl _
  | symbol | string | number | ident =>
    rw [hk] at ht
    cases ht

theorem noteToken_depth (token : Token) : (lexer.noteToken token).depth = lexer.depth := by
  unfold noteToken
  split <;> rfl

theorem noteToken_cursor (t : Token) : (lexer.noteToken t).cursor = lexer.cursor := by
  unfold noteToken
  split <;> rfl

theorem noteToken_pending (t : Token) : (lexer.noteToken t).pending = lexer.pending := by
  unfold noteToken
  split <;> rfl

theorem noteToken_quiet (hl : lexer.Quiet) (token : Token) : (lexer.noteToken token).Quiet := by
  unfold Quiet
  rwa [noteToken_pending]

/-- What a token leaves: layout waits, only symbols are brackets, the open brackets are
those after the token, and it takes something away unless it is the end token. -/
structure Fair (lexer : Lexer) (t : Token) (after : Lexer) : Prop where
  quiet : after.Quiet
  plain : t.kind ≠ .symbol → t.Plain
  depth : after.depth = depthAfter t.word.toList lexer.depth
  left : t.kind ≠ .eof → after.left < lexer.left
  spelled : t.isLayout = false → t.Spelled

theorem Fair.named (h : lexer.Fair t after) : t.Named :=
  fun hk => (h.spelled (by simp [Token.isLayout, hk])).named hk

/-- A token that is found from a lexer with less left. -/
theorem Fair.weaken {l : Lexer} (h : l.Fair t after) (hd : l.depth = lexer.depth)
    (hl : l.left ≤ lexer.left) : lexer.Fair t after where
  quiet := h.quiet
  plain := h.plain
  depth := by rw [h.depth, hd]
  left := fun hk => Nat.lt_of_lt_of_le (h.left hk) hl
  spelled := h.spelled

/-- A layout token that waited, or that was found with others that wait now. -/
theorem Fair.layout {l : Lexer} (ht : t.isLayout = true) (hl : l.Quiet)
    (hd : l.depth = lexer.depth) (hleft : t.kind ≠ .eof → l.left < lexer.left) :
    lexer.Fair t (l.noteToken t) where
  quiet := noteToken_quiet hl t
  plain := by
    intro _ depth
    rw [Token.word_eq_of_isLayout ht]
    rfl
  depth := by
    rw [noteToken_depth, hd, Token.word_eq_of_isLayout ht]
    rfl
  left := fun hk => Nat.lt_of_le_of_lt (noteToken_left_le ht) (hleft hk)
  spelled := fun hw => by cases ht.symm.trans hw

/-- The line and its blocks are turned into tokens. -/
theorem finish_fair {l : Lexer} (h : lexer.finish = (some (.ok t), l)) (hp : lexer.pending = []) :
    lexer.Fair t (l.noteToken t) := by
  obtain ⟨ts, rfl, closing⟩ := finish_ok h hp
  refine .layout (isLayout_closing (closing ▸ List.mem_cons_self))
    (fun u hu => isLayout_closing (closing ▸ List.mem_cons_of_mem t hu)) rfl fun hk => ?_
  have dedents : (lexer.blocks.map fun _ => lexer.layoutToken .dedent).countP (·.kind ≠ .eof) =
      lexer.blocks.length := by
    rw [List.countP_eq_length.2 fun t ht => ?_, List.length_map]
    obtain ⟨_, -, rfl⟩ := List.mem_map.1 ht
    rfl
  have count : lexer.closingTokens.countP (·.kind ≠ .eof) =
      (if lexer.lineOpen then 1 else 0) + lexer.blocks.length := by
    unfold closingTokens
    rw [List.countP_append, List.countP_append, dedents]
    split <;> rfl
  rw [closing, List.countP_cons_of_pos (by simpa using hk)] at count
  simp only [Lexer.left, hp, List.length_nil, List.countP_nil, Bool.false_eq_true, if_false]
  omega

/-! ## Brackets -/

/-- A text without brackets leaves the depth as it is. -/
theorem depthAfter_of_notMem {text : List Char} (depth : Nat)
    (h : ∀ c ∈ ['(', '[', '\x7b', ')', ']', '\x7d'], c ∉ text) : depthAfter text depth = depth := by
  have ne (c : Char) (hc : c ∈ ['(', '[', '\x7b', ')', ']', '\x7d']) : text ≠ [c] := by
    rintro rfl
    exact h c hc List.mem_cons_self
  simp [depthAfter, ne '(', ne '[', ne '\x7b', ne ')', ne ']', ne '\x7d']

/-- Numbers and names have no brackets in them. -/
theorem depthAfter_of_tokenAt? {text token : List Char} {kind : TokenKind}
    (h : tokenAt? text = some (kind, token)) (hs : kind ≠ .symbol) (hk : kind ≠ .string)
    (depth : Nat) : depthAfter token depth = depth := by
  have other : ∀ c ∈ ['(', '[', '\x7b', ')', ']', '\x7d'],
      ¬ (Cursor.isNumberChar c = true ∨ c = '+' ∨ c = '-') ∧ ¬ Cursor.isWordChar c = true := by
    simp only [List.forall_mem_cons, List.not_mem_nil]
    refine ⟨?_, ?_, ?_, ?_, ?_, ?_, nofun⟩ <;> exact ⟨by decide, by decide⟩
  refine depthAfter_of_notMem depth fun c hc hm => ?_
  cases tokenAt?_cases h with
  | string => exact hk rfl
  | number => exact (other c hc).1 (Cursor.mem_numberRun hm)
  | name => exact (other c hc).2 (List.all_eq_true.1 List.all_takeWhile c hm)
  | symbol => exact hs rfl

/-- The word of a token with text. -/
theorem word_tokenBetween {kind : TokenKind} {text : List Char} {first last : Cursor}
    (hk : kind ∈ [.string, .number, .ident, .symbol]) :
    (tokenBetween kind text first last).word.toList = if kind = .string then [] else text := by
  simp only [List.mem_cons, List.not_mem_nil, or_false] at hk
  rcases hk with rfl | rfl | rfl | rfl
  · rfl
  all_goals exact String.toList_ofList

/-! ## The next token -/

/-- **What a token does to the lexer.** -/
theorem Finds.fair (h : lexer.Finds t after) (hl : lexer.Quiet) : lexer.Fair t after := by
  induction h with
  | @waiting l t ts hp =>
    have quiet := hl
    rw [Quiet, hp, List.forall_mem_cons] at quiet
    refine .layout quiet.1 quiet.2 rfl fun hk => ?_
    simp only [left, hp, List.countP_cons_of_pos (p := fun t : Token => t.kind ≠ .eof)
      (show decide (t.kind ≠ .eof) = true by simpa using hk)]
    omega
  | @indented l width cursor l' t l'' hs hi _ ih =>
    have quiet := @indentTo_quiet (l.atIndented cursor) (quiet_of_pending hs.pending) width
    have depth := indentTo_depth (l.atIndented cursor) width
    rw [hi] at quiet depth
    exact (ih quiet).weaken depth (hs.left_le hi)
  | ended hs hf => exact (finish_fair hf hs.pending).weaken rfl (left_le_of_rest hs.length_le)
  | finished hr _ hf => exact (finish_fair hf hr.pending).weaken rfl (left_le_of_rest hr.length_le)
  | @lineEnd l cursor cs hr hline hopen =>
    refine ⟨quiet_of_pending hr.pending, fun _ _ => rfl, rfl, fun _ => ?_, nofun⟩
    have shorter := hr.length_le
    simp only [left, atNextLine, hopen, Cursor.rest_nextLine, hline, List.drop_succ_cons,
      List.drop_zero, List.length_cons, Bool.false_eq_true, if_true, if_false] at shorter ⊢
    omega
  | @emptyLine l cursor cs t l' hr hline hclosed _ ih =>
    refine (ih (quiet_of_pending hr.pending)).weaken rfl ?_
    have shorter := hr.length_le
    simp only [left, atNextLine, hclosed, Cursor.rest_nextLine, hline, List.drop_succ_cons,
      List.drop_zero, List.length_cons, Bool.false_eq_true, if_false] at shorter ⊢
    omega
  | @word l cursor kind text last hr ht hpasses _ =>
    obtain ⟨-, nonempty, hkind⟩ := tokenAt?_front ht
    have word := @word_tokenBetween kind text cursor last hkind
    refine ⟨quiet_of_pending hr.pending, fun hs depth => ?_, ?_, fun _ => ?_,
      fun _ => ⟨last.rest, by rwa [tokenBetween, String.toList_ofList, ← hpasses.rest]⟩⟩
    · rw [word]
      split
      · rfl
      · next hk => exact depthAfter_of_tokenAt? ht hs hk depth
    · rw [word]
      show (if kind = .symbol then depthAfter text l.depth else l.depth) = _
      split
      · next hs => rw [if_neg (by simp [hs])]
      · next hs =>
        split
        · rfl
        · next hk => exact (depthAfter_of_tokenAt? ht hs hk l.depth).symm
    · have shorter := hr.length_le
      have positive := List.length_pos_iff.2 nonempty
      rw [hpasses.rest, List.length_append] at shorter
      simp only [left, passToken]
      split_ifs <;> omega

theorem next_fair (hl : lexer.Quiet) (hn : lexer.next = (.ok t, after)) : lexer.Fair t after :=
  (next_eq_ok_iff.1 hn).fair hl

end

theorem start_quiet (source : Source) : (Lexer.start source).Quiet := by
  intro t ht
  cases ht

/-! ## Tokens one after another -/

/-- A lexer gives tokens and is then another lexer. -/
inductive Gives : Lexer → List Token → Lexer → Prop
  | nil (l) : Gives l [] l
  | cons {l t l' ts l''} : l.next = (.ok t, l') → Gives l' ts l'' → Gives l (t :: ts) l''

theorem Gives.uncons {t : Token} {ts : List Token} (h : lexer.Gives (t :: ts) after) :
    ∃ between, lexer.next = (.ok t, between) ∧ between.Gives ts after := by
  cases h with
  | cons hn h => exact ⟨_, hn, h⟩

theorem Gives.quiet {ts : List Token} (h : lexer.Gives ts after) (hl : lexer.Quiet) :
    after.Quiet := by
  induction h with
  | nil => exact hl
  | cons hn _ ih => exact ih (next_fair hl hn).quiet

/-- Tokens up to an end token, which is the only one. -/
inductive Ended : List Token → Prop
  | last {t} : t.kind = .eof → Ended [t]
  | cons {t ts} : t.kind ≠ .eof → Ended ts → Ended (t :: ts)

/-- **There are no more tokens than the lexer has left,** the end token apart. -/
theorem Gives.length_le {ts : List Token} (h : lexer.Gives ts after) (hl : lexer.Quiet)
    (he : Ended ts) : ts.length ≤ lexer.left + 1 := by
  induction h with
  | nil => cases he
  | cons hn _ ih =>
    obtain ⟨quiet, -, -, fewer⟩ := next_fair hl hn
    cases he with
    | last => simp
    | cons hk he =>
      have := ih quiet he
      have := fewer hk
      simp only [List.length_cons]
      omega

/-- A lexer gives an error before the end token. -/
def Stops (lexer : Lexer) : Prop :=
  ∃ ts before error after, (∀ t ∈ ts, t.kind ≠ .eof) ∧ lexer.Gives ts before ∧
    before.next = (.error error, after)

theorem Stops.cons {t : Token} {after : Lexer} (hn : lexer.next = (.ok t, after))
    (hk : t.kind ≠ .eof) (h : after.Stops) : lexer.Stops := by
  obtain ⟨ts, before, error, last, kinds, gives, stops⟩ := h
  exact ⟨t :: ts, before, error, last, List.forall_mem_cons.2 ⟨hk, kinds⟩, .cons hn gives, stops⟩

/-- The tokens that a lexer gives up to the end token, if there are at most `n` and no error. -/
def tokens? : (n : Nat) → Lexer → Option (List Token)
  | 0, _ => none
  | n + 1, lexer =>
    match lexer.next with
    | (.ok t, after) => if t.kind = .eof then some [t] else (tokens? n after).map (t :: ·)
    | (.error _, _) => none

theorem gives_of_tokens {n : Nat} {ts : List Token} (h : lexer.tokens? n = some ts) :
    Ended ts ∧ ∃ last, lexer.Gives ts last := by
  induction n generalizing lexer ts with
  | zero => cases h
  | succ n ih =>
    rw [tokens?] at h
    split at h
    · next t after hn =>
      split at h
      · next hk =>
        cases h
        exact ⟨.last hk, after, .cons hn (.nil _)⟩
      · next hk =>
        obtain ⟨ts, hts, rfl⟩ := Option.map_eq_some_iff.1 h
        obtain ⟨ended, last, gives⟩ := ih hts
        exact ⟨.cons hk ended, last, .cons hn gives⟩
    · cases h

end Lexer

/-- A source is cut into tokens without an error, up to the end token. -/
def Source.Lexes (source : Source) (tokens : List Token) : Prop :=
  Lexer.Ended tokens ∧ ∃ last, (Lexer.start source).Gives tokens last

/-- A source is not cut into tokens up to the end token: there is an error before. -/
def Source.Fails (source : Source) : Prop := (Lexer.start source).Stops

end SdkUsage
