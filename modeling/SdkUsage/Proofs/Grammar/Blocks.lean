/-
The grammar reads blocks from their lines. Where a statement is printed at a level, the
rule for statements passes the tokens of its lines up to those of the lines behind them.
-/
import SdkUsage.Proofs.Grammar.Lines
import SdkUsage.Proofs.Tree.Lines

namespace SdkUsage

theorem Line.exists_tokens (level : Nat) (lines : List Line) :
    ∃ t ts, tokens level lines = t :: ts := by
  refine List.exists_cons_of_ne_nil ?_
  cases lines <;> simp [tokens]

namespace Grammar

open SdkUsage.Tree

variable {ss : List Stmt} {words : List String} {ts : List Token} {level : Nat} {more : List Line}

/-- The next word is none of the given ones. -/
def Apart (words : List String) (ts : List Token) : Prop :=
  ∃ t us, ts = t :: us ∧ t.word ∉ words

theorem Apart.exists_cons (h : Apart words ts) : ∃ t us, ts = t :: us := by
  obtain ⟨t, us, rfl, -⟩ := h
  exact ⟨t, us, rfl⟩

theorem Apart.mono {words' : List String} (h : Apart words ts) (hw : words' ⊆ words) :
    Apart words' ts := by
  obtain ⟨t, us, rfl, ht⟩ := h
  exact ⟨t, us, rfl, fun hmem => ht (hw hmem)⟩

theorem Apart.ne {t : Token} {text : String} (h : Apart words (t :: ts)) (ht : text ∈ words) :
    t.word ≠ text := by
  rintro rfl
  obtain ⟨_, _, ⟨⟩, hw⟩ := h
  exact hw ht

namespace Nesting

/-- A rule reads lines at every level, up to the lines behind them. -/
def ReadsLines {α : Type} (rule : Nat → Parse α) (lines : Nat → List Line) (deep : Nat)
    (words : List String) (post : α → Prop) : Prop :=
  ∀ level more bound, Line.Below level more → Apart words (Line.tokens level more) →
    (Line.tokens level (lines level ++ more)).length < bound →
    Parses (rule bound) deep (Line.tokens level (lines level ++ more)) (Line.tokens level more) post

variable (elif : Site → Bool)

/-- A statement is read back from its lines, as a branch also where it starts with `elif`. -/
structure ReadsStmt (s : Stmt) (deep : Nat) : Prop where
  statement : ReadsLines (fun bound => (rules bound).statement) (s.lines elif "if") deep clauseWords
    fun ss => ∃ s', ss = [s'] ∧ s.Same s'
  elif : s.asElif elif = true → ReadsLines (fun bound => (rules bound).ifStmt)
    (s.lines elif "elif") deep clauseWords s.Same

/-- Plain statements that are read back without deep nesting of expressions. -/
def Readable (ss : List Stmt) : Prop := ∀ s ∈ ss, s.Plain ∧ ∃ deep ≤ 1, ReadsStmt elif s deep

theorem Readable.plain {elif : Site → Bool} (h : Readable elif ss) : ∀ s ∈ ss, s.Plain :=
  fun s hs => (h s hs).1

/-! ## Blocks -/

variable {elif}

/-- A plain statement starts with a line of its level, which starts no clause. -/
theorem lines_head (elif : Site → Bool) {s : Stmt} (h : s.Plain) (level : Nat) : ∃ w ws lines,
    s.lines elif "if" level = ⟨level, w :: ws⟩ :: lines ∧ w.isLayout = false ∧
      w.word ∉ clauseWords := by
  cases h with
  | expr hvalue =>
    obtain ⟨_, id, rfl, hid⟩ := hvalue
    refine ⟨_, _, _, by rw [Stmt.lines, Expr.words], rfl, fun hmem => ?_⟩
    have keywords : ∀ w ∈ clauseWords, isKeyword w = true := by decide
    exact absurd (keywords id hmem) (by rw [hid.2]; decide)
  | pass => exact ⟨_, _, _, by rw [Stmt.lines], rfl, by decide⟩
  | _ => exact ⟨_, _, _, by rw [Stmt.lines]; rfl, rfl, by decide⟩

/-- What comes behind a statement in a block. -/
theorem block_head (elif : Site → Bool) (h : ∀ s ∈ ss, s.Plain) (hb : Line.Below level more)
    (ha : Apart clauseWords (Line.tokens level more)) :
    Line.Below level (blockLines elif level ss ++ more) ∧
      Apart clauseWords (Line.tokens level (blockLines elif level ss ++ more)) := by
  cases ss with
  | nil =>
    rw [blockLines]
    exact ⟨hb, ha⟩
  | cons s ss =>
    obtain ⟨w, ws, lines, head, -, hw⟩ := lines_head elif (h s List.mem_cons_self) level
    rw [blockLines, head]
    refine ⟨fun line hline => ?_, w, _, Line.tokens_cons ⟨level, w :: ws⟩ _, hw⟩
    cases hline
    exact Nat.le_refl level

/-- The statements of a block are read up to what ends it. -/
def ReadsBlock (elif : Site → Bool) (ss : List Stmt) (deep : Nat) : Prop :=
  ∀ ends, Placeless ends → (∀ t : Token, t.isLayout = false → ends t = false) →
    ∀ t us level more bound n, Line.tokens level more = t :: us → ends t = true →
    Line.Below level more →
    (Line.tokens level (blockLines elif level ss ++ more)).length + 1 < bound →
    (Line.tokens level (blockLines elif level ss ++ more)).length ≤ n →
    Parses ((rules bound).groupsUntil ends n) deep
      (Line.tokens level (blockLines elif level ss ++ more)) (Line.tokens level more)
      fun groups => List.Forall₂ Stmt.Same ss groups.flatten

theorem readsBlock (h : Readable elif ss) : ∃ deep ≤ 1, ReadsBlock elif ss deep := by
  induction ss with
  | nil =>
    refine ⟨0, Nat.zero_le 1, fun ends hp _ t us level more bound n head ht _ _ hn => ?_⟩
    rw [blockLines, List.nil_append, head] at hn ⊢
    refine (groupsUntil_nil (by simp at hn; omega) hp ht).weaken ?_
    rintro _ rfl
    exact .nil
  | cons s ss ih =>
    obtain ⟨⟨plain, deep, hdeep, reads⟩, hss⟩ := List.forall_mem_cons.1 h
    obtain ⟨deep', hdeep', more⟩ := ih hss
    refine ⟨max deep deep', by omega, ?_⟩
    intro ends hp hw t us level behind bound n head ht below hb hn
    obtain ⟨m, rfl⟩ : ∃ m, bound = m + 1 := ⟨bound - 1, by omega⟩
    have layout : t.isLayout = true := by
      by_contra written
      rw [hw t (Bool.eq_false_iff.2 written)] at ht
      cases ht
    have apart : Apart clauseWords (Line.tokens level behind) :=
      ⟨t, us, head, by rw [Token.word_eq_of_isLayout layout]; decide⟩
    have tail : Readable elif ss := hss
    obtain ⟨below', apart'⟩ := block_head elif tail.plain below apart
    rw [blockLines, List.append_assoc] at hb hn ⊢
    have first := reads.statement level _ m below' apart' (by dsimp only; omega)
    obtain ⟨w, ws, lines, hlines, written, -⟩ := lines_head elif plain level
    have shorter := Line.length_tokens_le level lines (blockLines elif level ss ++ behind)
    have start : Line.tokens level
          (s.lines elif "if" level ++ (blockLines elif level ss ++ behind)) =
        w :: (ws ++ ⟨.newline, "", default⟩
          :: Line.tokens level (lines ++ (blockLines elif level ss ++ behind))) := by
      rw [hlines]
      exact Line.tokens_cons ⟨level, w :: ws⟩ _
    dsimp only at first
    rw [start] at hb hn first ⊢
    simp only [List.length_cons, List.length_append] at hb hn
    have rest := more ends hp hw t us level behind (m + 1) (n - 1) head ht below (by omega)
      (by omega)
    refine (groupsUntil_cons (by omega) hp (hw w written) first rest).weaken ?_
    rintro _ ⟨_, groups, rfl, ⟨s', rfl, same⟩, sames⟩
    exact .cons same sames

/-- The tokens of a header, the block behind it, and what comes then. -/
theorem tokens_header (level : Nat) (word : String) (words : List Token) (body : List Stmt)
    (after more : List Line) :
    Line.tokens level
        (header level word words :: (blockLines elif (level + 1) body ++ after) ++ more) =
      .ident word :: (words ++ .symbol ":" :: ⟨.newline, "", default⟩
        :: Line.tokens level (blockLines elif (level + 1) body ++ (after ++ more))) := by
  rw [List.cons_append, List.append_assoc]
  refine (Line.tokens_cons (header level word words) _).trans ?_
  rw [header, List.cons_append, List.append_assoc]
  rfl

theorem endsBlock_of_written (t : Token) (h : t.isLayout = false) : endsBlock t = false := by
  unfold endsBlock
  rw [Bool.or_eq_false_iff, decide_eq_false_iff_not, decide_eq_false_iff_not]
  constructor
  · intro hk
    cases h.symm.trans (by rw [Token.isLayout, hk])
  · intro hk
    cases h.symm.trans (by rw [Token.isLayout, hk])

/-- A block, from the colon behind its header on. -/
theorem Readable.block {body : List Stmt} (h : Readable elif body) (hne : body ≠ []) :
    ∃ deep ≤ 1, ∀ level bound more context, Line.Below level more →
      (Line.tokens level (blockLines elif (level + 1) body ++ more)).length + 1 < bound →
      Parses ((rules bound).block context) deep
        (.symbol ":" :: ⟨.newline, "", default⟩
          :: Line.tokens level (blockLines elif (level + 1) body ++ more))
        (Line.tokens level more) (List.Forall₂ Stmt.Same body) := by
  obtain ⟨deep, hdeep, reads⟩ := readsBlock h
  refine ⟨deep, hdeep, fun level bound more context below hlen => ?_⟩
  obtain ⟨w, ws, lines, hlines⟩ : ∃ w ws lines,
      blockLines elif (level + 1) body = ⟨level + 1, w :: ws⟩ :: lines := by
    cases body with
    | nil => exact absurd rfl hne
    | cons s ss =>
      obtain ⟨w, ws, lines, head, -⟩ := lines_head elif (h.plain s List.mem_cons_self) (level + 1)
      exact ⟨w, ws, _, by rw [blockLines, head]; rfl⟩
  have opened : Line.tokens level (blockLines elif (level + 1) body ++ more) =
      ⟨.indent, "", default⟩
        :: Line.tokens (level + 1) (blockLines elif (level + 1) body ++ more) := by
    rw [hlines]
    exact Line.tokens_indent rfl _
  have closed := Line.tokens_dedent below
  rw [opened, List.length_cons] at hlen
  have below' : Line.Below (level + 1) more :=
    fun line hline => Nat.le_succ_of_le (below line hline)
  have inner := reads endsBlock endsBlock_placeless endsBlock_of_written _ _ (level + 1) more
    bound bound closed rfl below' (by omega) (by omega)
  have stmts : Parses ((rules bound).stmtsUntil endsBlock) deep
      (Line.tokens (level + 1) (blockLines elif (level + 1) body ++ more))
      (Line.tokens (level + 1) more) (List.Forall₂ Stmt.Same body) :=
    inner.bind_zero fun groups h => .pure h
  rw [opened]
  rw [closed] at stmts
  obtain ⟨u, us, hu⟩ :=
    Line.exists_tokens (level + 1) (blockLines elif (level + 1) body ++ more)
  obtain ⟨v, vs, hv⟩ := Line.exists_tokens level more
  rw [hu, hv] at stmts
  rw [hu, hv]
  refine .expect rfl (.kind ?_)
  rw [if_neg (by decide)]
  refine .advance (.kind ?_)
  rw [if_neg (by decide)]
  refine .advance (stmts.bind_zero fun ss hss => .kind ?_)
  rw [if_pos rfl]
  exact .advance (.pure hss)

/-! ## Clauses -/

theorem below_clauseLines {word : String} (h : Line.Below level more) :
    Line.Below level (clauseLines elif word level ss ++ more) := by
  cases ss with
  | nil => rwa [clauseLines]
  | cons s ss =>
    rw [clauseLines]
    intro line hline
    cases hline
    exact Nat.le_refl level

theorem apart_clauseLines {word : String} (hw : word ∉ words)
    (h : Apart words (Line.tokens level more)) :
    Apart words (Line.tokens level (clauseLines elif word level ss ++ more)) := by
  cases ss with
  | nil => rwa [clauseLines]
  | cons s ss =>
    rw [clauseLines]
    exact ⟨_, _, Line.tokens_cons (header level word []) _, hw⟩

/-- An `else` or `finally` clause. -/
def clauseRule (word context : String) (bound : Nat) : Parse (List Stmt) := do
  if ← accept word then return ← (rules bound).block context
  return []

theorem Readable.clause (h : Readable elif ss) (word context : String) :
    ∃ deep ≤ 1, ReadsLines (clauseRule word context)
      (fun level => clauseLines elif word level ss) deep [word] (List.Forall₂ Stmt.Same ss) := by
  cases ss with
  | nil =>
    refine ⟨0, Nat.zero_le 1, fun level more bound _ apart _ => ?_⟩
    obtain ⟨t, us, head⟩ := apart.exists_cons
    rw [head] at apart
    dsimp only
    rw [clauseLines, List.nil_append, head]
    exact .refuse (apart.ne List.mem_cons_self) (.pure .nil)
  | cons s ss =>
    obtain ⟨deep, hdeep, block⟩ := h.block (List.cons_ne_nil s ss)
    refine ⟨deep, hdeep, fun level more bound below _ hlen => ?_⟩
    have lines : Line.tokens level (clauseLines elif word level (s :: ss) ++ more) =
        .ident word :: .symbol ":" :: ⟨.newline, "", default⟩
          :: Line.tokens level (blockLines elif (level + 1) (s :: ss) ++ more) := by
      rw [clauseLines, blockLines]
      exact Line.tokens_cons (header level word []) _
    dsimp only at hlen ⊢
    rw [lines] at hlen ⊢
    simp only [List.length_cons] at hlen
    exact .accept rfl (block level bound more context below (by omega))

end Nesting

end Grammar

end SdkUsage
