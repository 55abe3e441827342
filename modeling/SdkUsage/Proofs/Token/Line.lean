/-
Programs printed line by line. A line is printed after one space for every enclosing
block: names and keywords with a space before them, symbols directly behind the word
they follow. Lines that go at most one block deeper at a time have the tokens
`Line.tokens` gives (`Laid.lexes`).
-/
import Mathlib.Data.List.Chain
import SdkUsage.Proofs.Token.Written

namespace SdkUsage

/-- A line of a printed program. -/
structure Line where
  level : Nat
  words : List Token

namespace Line

/-- A word behind another. -/
def behind (t : Token) : String := if t.kind = .symbol then t.text else " " ++ t.text

/-- The words of a line as text. -/
def phrase : List Token → String
  | [] => ""
  | w :: ws => w.text ++ String.join (ws.map behind)

/-- A line as text. -/
def text (line : Line) : String :=
  String.ofList (List.replicate line.level ' ') ++ (phrase line.words ++ "\n")

/-- The layout between lines of two levels. -/
def layout (level level' : Nat) : List Token :=
  if level' = level + 1 then [⟨.indent, "", default⟩]
  else List.replicate (level - level') ⟨.dedent, "", default⟩

/-- The tokens of lines where `level` blocks are open. -/
def tokens (level : Nat) : List Line → List Token
  | [] => List.replicate level ⟨.dedent, "", default⟩ ++ [⟨.eof, "", default⟩]
  | line :: lines =>
    layout level line.level
      ++ (line.words ++ ⟨.newline, "", default⟩ :: tokens line.level lines)

end Line

/-- A token is still one when another that is set without a space follows it. -/
def Token.Joins (w v : Token) : Prop :=
  v.kind = .symbol →
    ∀ cs, tokenAt? (w.text.toList ++ (v.text.toList ++ cs)) = some (w.kind, w.text.toList)

/-- A line that is cut into its words again, with all its brackets closed. -/
structure Line.Tidy (line : Line) : Prop where
  words : ∀ w ∈ line.words, w.IsWord
  joins : line.words.IsChain Token.Joins
  nonempty : line.words ≠ []
  balanced : line.words.foldl Token.depthPast 0 = 0

/-- Tidy lines, each at most one block deeper than the one before it. -/
inductive Laid : (level : Nat) → List Line → Prop
  | nil {level} : Laid level []
  | cons {level line lines} : line.level ≤ level + 1 → line.Tidy → Laid line.level lines →
      Laid level (line :: lines)

theorem Laid.mono {level level' : Nat} {lines : List Line} (h : Laid level lines)
    (hl : level ≤ level') : Laid level' lines := by
  cases h with
  | nil => exact .nil
  | cons hline tidy more => exact .cons (by omega) tidy more

/-! ## Cutting lines into words -/

theorem Token.IsWord.before_blank {t : Token} (h : t.IsWord) {c : Char} (hc : c = ' ' ∨ c = '\n')
    (cs : List Char) : tokenAt? (t.text.toList ++ c :: cs) = some (t.kind, t.text.toList) := by
  have alone : tokenAt? (t.text.toList ++ []) = some (t.kind, t.text.toList) := by
    rw [List.append_nil]
    exact h.1
  exact tokenAt?_replaces alone (.blank hc)

/-- A name or keyword can have punctuation directly behind it. -/
theorem Token.IsWord.joins_mark {t v : Token} (h : t.IsWord) (hk : t.kind = .ident)
    (hv : v.text ∈ ["(", ",", ":"]) : t.Joins v := by
  intro _ cs
  obtain ⟨c, hc, hw, hq⟩ : ∃ c, v.text.toList = [c] ∧ Cursor.isWordChar c = false ∧
      startsQuote [c] = false := by
    simp only [List.mem_cons, List.not_mem_nil, or_false] at hv
    rcases hv with hv | hv | hv <;> rw [hv] <;> exact ⟨_, rfl, by decide, by decide⟩
  obtain ⟨token, -⟩ := h
  rw [hk] at token ⊢
  obtain ⟨-, nonempty, -⟩ := tokenAt?_front token
  rw [hc]
  generalize t.text.toList = text at token nonempty
  unfold tokenAt? at token
  split at token
  · obtain ⟨_, -, heq⟩ := Option.map_eq_some_iff.1 token
    cases heq
  next quote =>
  split at token
  · split at token <;> cases token
  next number =>
  split at token
  · next word =>
    unfold wordTokenAt? at token
    split at token
    · obtain ⟨_, -, heq⟩ := Option.map_eq_some_iff.1 token
      cases heq
    · have whole : Cursor.wordAt text = text := by simpa using token
      have same : Cursor.wordAt (text ++ ([c] ++ cs)) = text := by
        rw [Cursor.wordAt, Cursor.takeWhile_append_eq_iff]
        rw [Cursor.wordAt] at whole
        refine ⟨List.takeWhile_eq_self_iff.1 whole, ?_⟩
        intro d hd
        cases hd
        exact hw
      obtain ⟨d, ds, rfl⟩ := List.exists_cons_of_ne_nil nonempty
      have starts : Cursor.isWordStart d = true := by simpa using word
      have noPoint : d ≠ '.' := by
        rintro rfl
        exact absurd starts (by decide)
      have noDigit : d.isDigit = false := by
        rw [Bool.not_eq_true, startsNumber, Bool.or_eq_false_iff] at number
        exact number.1
      have noNumber : startsNumber (d :: ds ++ ([c] ++ cs)) = false := by
        simp [startsNumber, noDigit, noPoint]
      have noQuote : startsQuote ([c] ++ cs) = false := hq
      unfold tokenAt? wordTokenAt?
      rw [startsQuote_append nonempty, if_neg quote, noNumber, same, List.drop_left, noQuote]
      simp [starts]
  · obtain ⟨_, -, heq⟩ := Option.map_eq_some_iff.1 token
    cases heq

theorem spells_behind {w : Token} {ws : List Token} (hw : ∀ v ∈ w :: ws, v.IsWord)
    (hj : (w :: ws).IsChain Token.Joins) (n : Nat) (more : List Char) :
    Spells ('\n' :: more) n (w :: ws) (List.replicate n ' '
      ++ (w.text.toList ++ (String.join (ws.map Line.behind)).toList)) := by
  induction ws generalizing w n with
  | nil => exact .cons ((hw w List.mem_cons_self).before_blank (.inr rfl) more) (.nil (n := 0))
  | cons v ws ih =>
    obtain ⟨joins, hj⟩ := List.isChain_cons_cons.1 hj
    obtain ⟨word, hw⟩ := List.forall_mem_cons.1 hw
    rw [String.toList_join, List.map_cons, List.flatMap_cons, ← String.toList_join, Line.behind]
    split
    · next hk =>
      refine .cons ?_ (ih hw hj 0)
      rw [List.append_assoc]
      exact joins hk _
    · rw [String.toList_append, List.append_assoc]
      exact .cons (word.before_blank (.inl rfl) _) (ih hw hj 1)

/-- The words of a tidy line are found at its front. -/
theorem Line.Tidy.spells {line : Line} (h : line.Tidy) (more : List Char) :
    Spells ('\n' :: more) line.level line.words
      (List.replicate line.level ' ' ++ (phrase line.words).toList) := by
  obtain ⟨level, words⟩ := line
  cases words with
  | nil => exact absurd rfl h.nonempty
  | cons w ws =>
    rw [phrase, String.toList_append]
    exact spells_behind h.words h.joins level more

/-! ## Lines one after another -/

theorem Line.toList_text (line : Line) : line.text.toList =
    List.replicate line.level ' ' ++ (phrase line.words).toList ++ ['\n'] := by
  rw [text, String.toList_append, String.toList_append, String.toList_ofList, List.append_assoc]
  rfl

theorem closes_tokens (level : Nat) : Closes level (Line.tokens level []) := by
  rw [Line.tokens]
  induction level with
  | zero => exact .eof rfl
  | succ level ih => exact .block rfl ih

theorem opens_layout {level level' : Nat} (h : level' ≤ level + 1) :
    Opens level (Line.layout level level') level' := by
  unfold Line.layout
  split
  · next heq =>
    subst heq
    exact .block rfl
  · next hne =>
    have dedents : ∀ t ∈ List.replicate (level - level') (⟨.dedent, "", default⟩ : Token),
        t.kind = .dedent := fun t ht => by rw [List.eq_of_mem_replicate ht]
    have close : Opens _ _ level' := .close dedents
    rw [List.length_replicate] at close
    rwa [show level' + (level - level') = level by omega] at close

/-- Lines are printed as their tokens. -/
theorem Laid.prints {level : Nat} {lines : List Line} (h : Laid level lines) :
    Prints level (Line.tokens level lines) (lines.flatMap fun line => line.text.toList) := by
  induction h with
  | nil => exact .done (closes_tokens _)
  | @cons level line lines hl tidy _ ih =>
    rw [List.flatMap_cons, Line.toList_text, List.append_assoc, List.singleton_append, Line.tokens]
    exact .line (opens_layout hl) tidy.nonempty (tidy.spells _) tidy.balanced rfl ih

theorem Line.mem_text {line : Line} {c : Char} (h : c ∈ line.text.toList) :
    c = ' ' ∨ c = '\n' ∨ ∃ w ∈ line.words, c ∈ w.text.toList := by
  rw [toList_text, List.mem_append, List.mem_append, List.mem_singleton] at h
  rcases h with (h | h) | rfl
  · exact .inl (List.eq_of_mem_replicate h)
  · obtain ⟨level, words⟩ := line
    cases words with
    | nil => cases h
    | cons w ws =>
      rw [phrase, String.toList_append, String.toList_join, List.mem_append, List.mem_flatMap] at h
      rcases h with h | ⟨_, hmem, h⟩
      · exact .inr (.inr ⟨w, List.mem_cons_self, h⟩)
      · obtain ⟨t, ht, rfl⟩ := List.mem_map.1 hmem
        unfold behind at h
        split at h
        · exact .inr (.inr ⟨t, List.mem_cons_of_mem w ht, h⟩)
        · rw [String.toList_append, List.mem_append] at h
          rcases h with h | h
          · exact .inl (List.mem_singleton.1 h)
          · exact .inr (.inr ⟨t, List.mem_cons_of_mem w ht, h⟩)
  · exact .inr (.inl rfl)

theorem Laid.tidy {level : Nat} {lines : List Line} (h : Laid level lines) :
    ∀ line ∈ lines, line.Tidy := by
  induction h with
  | nil => exact fun _ hmem => absurd hmem List.not_mem_nil
  | cons _ tidy _ ih => exact List.forall_mem_cons.2 ⟨tidy, ih⟩

/-- **The tokens of printed lines.** -/
theorem Laid.lexes {lines : List Line} (h : Laid 0 lines) (file : String) :
    ∃ us, Source.Lexes ⟨file, String.join (lines.map Line.text)⟩ us ∧
      List.Forall₂ Token.Alike (Line.tokens 0 lines) us := by
  have text : Source.chars ⟨file, String.join (lines.map Line.text)⟩ =
      lines.flatMap fun line => line.text.toList := by
    rw [Source.chars, String.toList_join, List.flatMap_map]
  refine Prints.lexes (text ▸ h.prints) fun hnul => ?_
  rw [text, List.mem_flatMap] at hnul
  obtain ⟨line, hline, hnul⟩ := hnul
  rcases Line.mem_text hnul with hc | hc | ⟨w, hw, hc⟩
  · cases hc
  · cases hc
  · exact ((h.tidy line hline).words w hw).nul_notMem hc

/-! ## Open blocks -/

/-- Lines that go on in the blocks that are open, or outside them. -/
def Line.Below (level : Nat) (lines : List Line) : Prop := ∀ line ∈ lines.head?, line.level ≤ level

theorem Line.tokens_cons (line : Line) (lines : List Line) :
    tokens line.level (line :: lines) =
      line.words ++ ⟨.newline, "", default⟩ :: tokens line.level lines := by
  rw [tokens, layout, if_neg (by omega), Nat.sub_self]
  rfl

/-- A line one block deeper. -/
theorem Line.tokens_indent {line : Line} {level : Nat} (h : line.level = level + 1)
    (lines : List Line) : tokens level (line :: lines) =
      ⟨.indent, "", default⟩ :: tokens (level + 1) (line :: lines) := by
  rw [← h, tokens_cons, tokens, layout, if_pos h]
  rfl

/-- Before lines outside it, a block is closed. -/
theorem Line.tokens_dedent {level : Nat} {lines : List Line} (h : Below level lines) :
    tokens (level + 1) lines = ⟨.dedent, "", default⟩ :: tokens level lines := by
  cases lines with
  | nil => rfl
  | cons line lines =>
    have outside : line.level ≤ level := h line rfl
    rw [tokens, tokens, layout, layout, if_neg (by omega), if_neg (by omega),
      show level + 1 - line.level = level - line.level + 1 by omega]
    rfl

/-- Lines behind others have no more tokens than all of them. -/
theorem Line.length_tokens_le (level : Nat) (before lines : List Line) :
    (tokens level lines).length ≤ (tokens level (before ++ lines)).length := by
  have length_layout (level level' : Nat) :
      (layout level level').length = if level' = level + 1 then 1 else level - level' := by
    unfold layout
    split
    · rfl
    · exact List.length_replicate
  have jump (level level' : Nat) : (tokens level lines).length ≤
      (layout level level').length + 1 + (tokens level' lines).length := by
    cases lines with
    | nil =>
      simp only [tokens, List.length_append, List.length_replicate, length_layout]
      split <;> omega
    | cons line lines =>
      simp only [tokens, List.length_append, length_layout]
      split <;> split <;> split <;> omega
  induction before generalizing level with
  | nil => exact Nat.le_refl _
  | cons line before ih =>
    have tail := ih line.level
    have first := jump level line.level
    simp only [List.cons_append, tokens, List.length_append, List.length_cons]
    omega

end SdkUsage
