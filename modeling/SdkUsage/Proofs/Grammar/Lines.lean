/-
Lines of simple statements, and the sources they are the lines of. A source whose tokens
are known is parsed as the rules parse these tokens (`parse_of_parses`).
-/
import SdkUsage.Proofs.Grammar.Operators
import SdkUsage.Proofs.SameTokens

namespace SdkUsage

open SdkUsage.Tree

theorem Token.word_newline {t : Token} (h : t.kind = .newline) : t.word = "" :=
  word_eq_of_isLayout (by rw [isLayout, h])

namespace Grammar

/-! ## Sources with known tokens -/

/-- What the statements of a source are, if they are parsed from its tokens. -/
theorem parse_of_parses {source : Source} {ts us rest : List Token} {deep : Nat}
    {post : List Stmt → Prop} (hus : source.Lexes us) (alike : List.Forall₂ Token.Alike ts us)
    (h : ∀ bound, ts.length + 2 ≤ bound →
      Parses ((rules bound).stmtsUntil endsText) deep ts rest post) :
    (deep ≤ maxDepth → ∃ m, parse source = .ok m ∧ post m.body) ∧
      (maxDepth < deep → ∃ e, parse source = .error e ∧ e.cause = .tooDeep) := by
  obtain ⟨ended, last, given⟩ := hus
  cases alike with
  | nil => cases ended
  | @cons t u ts us htu hrest =>
    obtain ⟨l, hn, given⟩ := given.uncons
    have start := Parser.start_of_next hn
    have quiet := (Lexer.next_fair (Lexer.start_quiet source) hn).1
    have length := length_le_remaining quiet given ended
    have sees : Sees ⟨l, u, 0, 0, 0, 0⟩ (t :: ts) := ⟨us, last, given, .cons htu hrest⟩
    have bound : (t :: ts).length + 2 ≤ Parser.budget ⟨l, u, 0, 0, 0, 0⟩ := by
      rw [Parser.budget, List.length_cons, hrest.length_eq]
      dsimp only
      omega
    obtain ⟨succeeds, fails⟩ := h _ bound _ sees (Nat.zero_le _)
    simp only [Nat.zero_add] at succeeds fails
    constructor
    · intro hle
      obtain ⟨body, q, run, -, -, hpost⟩ := succeeds hle
      exact ⟨⟨body, q.expressions, q.statements⟩, by rw [parse_eq start, run], hpost⟩
    · intro hlt
      obtain ⟨e, q, run, cause⟩ := fails hlt
      exact ⟨e, by rw [parse_eq start, run], cause⟩

theorem endsText_of_written (t : Token) (h : t.isLayout = false) : endsText t = false := by
  rw [endsText, decide_eq_false_iff_not]
  intro hk
  cases h.symm.trans (by rw [Token.isLayout, hk])

/-! ## Simple statements -/

namespace Recursion

variable {bound deep : Nat} {t u : Token} {ts us rest : List Token} {e : Expr}

/-- An expression up to the end of a line. -/
theorem exprStmt_parses (he : e.Plain) (ht : t.kind = .newline)
    (hlen : (e.words ++ t :: ts).length < bound) :
    Parses (levels bound).exprStmt (e.nesting + 1) (e.words ++ t :: ts) (t :: ts)
      fun s => ∃ site e', s = .expr site e' ∧ Expr.Same e e' := by
  have noWord := Token.word_newline ht
  have test : Parses (levels bound).test (e.nesting + 1) (e.words ++ t :: ts) (t :: ts) (Expr.Same e) :=
    nested_parses .conditional (parsed he).top (.of_none (by rw [noWord]; decide)) hlen
  have begins : Begins 0 e.words := (Begins.words he).mono (Nat.zero_le _)
  obtain ⟨w, ws, hw⟩ := begins.exists_cons
  rw [hw] at test begins ⊢
  have item : Parses ((levels bound).starOr (levels bound).test) (e.nesting + 1)
      (w :: ws ++ t :: ts) (t :: ts) (Expr.Same e) :=
    .here fun _ => .refuse (begins.ne (by decide)) test
  have list : Parses (levels bound).exprList (e.nesting + 1) (w :: ws ++ t :: ts) (t :: ts)
      (Expr.Same e) := by
    refine .here fun _ => item.bind_zero fun _ he' => .word ?_
    rw [noWord]
    exact .pure he'
  have value : Parses (levels bound).exprOrYield (e.nesting + 1) (w :: ws ++ t :: ts) (t :: ts)
      (Expr.Same e) := by
    refine .word ?_
    rw [if_neg (begins.ne (by decide))]
    exact list
  have noSide : Parses (levels bound).assignedSide? 0 (t :: ts) (t :: ts) (· = none) :=
    .refuse (by rw [noWord]; decide) (.pure rfl)
  refine .here fun _ => value.bind_zero fun e' he' =>
    (Parses.many_none (by dsimp only; omega) noSide).zero_bind fun sides hsides => ?_
  rw [hsides]
  refine .refuse (by rw [noWord]; decide) (.word ?_)
  rw [noWord]
  exact .stmtSite fun site => .pure ⟨site, e', rfl, he'⟩

/-- A statement alone on a line. -/
theorem simpleStmts_parses {g : Recursion} {post : Stmt → Prop} (ht : t.kind = .newline) (hb : 0 < g.bound)
    (h : Parses g.smallStmt deep ts (t :: u :: us) post) :
    Parses g.simpleStmts deep ts (u :: us) fun ss => ∃ s, ss = [s] ∧ post s := by
  have noMore : Parses (following ";" endsLine g.smallStmt g.bound) 0 (t :: u :: us) (t :: u :: us)
      (· = []) := by
    refine .many_none hb (.refuse ?_ (.pure rfl))
    rw [Token.word_newline ht]
    decide
  have stmts : Parses (separated ";" endsLine g.smallStmt g.bound) deep ts (t :: u :: us)
      fun ss => ∃ s, ss = [s] ∧ post s := by
    refine h.bind_zero fun s hs => noMore.zero_bind fun ss hss => .pure ?_
    rw [hss]
    exact ⟨s, rfl, hs⟩
  exact stmts.bind_zero fun ss hss => .lineEnd ht (.pure hss)

theorem smallStmt_expr (he : e.Plain) (ht : t.kind = .newline)
    (hlen : (e.words ++ t :: ts).length < bound) :
    Parses (levels bound).smallStmt (e.nesting + 1) (e.words ++ t :: ts) (t :: ts)
      fun s => ∃ site e', s = .expr site e' ∧ Expr.Same e e' := by
  have stmt := exprStmt_parses he ht hlen
  have begins : Begins 0 e.words := (Begins.words he).mono (Nat.zero_le _)
  obtain ⟨w, ws, hw⟩ := begins.exists_cons
  rw [hw] at stmt begins ⊢
  refine .word ?_
  split <;> first | exact stmt | exact absurd ‹_› (begins.ne (by decide))

end Recursion

namespace Nesting

variable {bound deep : Nat} {t u : Token} {ts us rest : List Token} {post : List Stmt → Prop}

/-- A statement that starts no compound statement is one of a line. -/
theorem statement_simple {g : Nesting} (hb : Begins 0 (t :: ts))
    (h : Parses g.simpleStmts deep (t :: ts) rest post) :
    Parses g.statement deep (t :: ts) rest post := by
  have written : t.isLayout = false := Token.isLayout_of_word_ne (hb.ne (by decide))
  have compound : Parses g.stmtOfWord deep (t :: ts) rest post := by
    refine .here fun _ => .word ?_
    split <;> first | exact h | exact absurd ‹_› (hb.ne (by decide))
  refine .kind ?_
  split
  · next hk => cases written.symm.trans (by rw [Token.isLayout, hk])
  · next hk => cases written.symm.trans (by rw [Token.isLayout, hk])
  · exact compound

/-! ## Statements one after another -/

/-- The statements of a block up to a token that ends it, line by line. -/
def groupsUntil (g : Nesting) (ends : Token → Bool) (n : Nat) : Parse (List (List Stmt)) :=
  many (do
    if ends (← token) then return none
    return some (← g.stmts .statement)) n

theorem stmtsUntil_eq (g : Nesting) (ends : Token → Bool) :
    g.stmtsUntil ends = do return (← g.groupsUntil ends g.bound).flatten := rfl

theorem groupsUntil_nil {g : Nesting} {ends : Token → Bool} {n : Nat} (hn : 0 < n)
    (hp : Placeless ends) (ht : ends t = true) :
    Parses (g.groupsUntil ends n) 0 (t :: ts) (t :: ts) (· = []) := by
  refine .many_none hn (.token fun u hu => ?_)
  rw [← hp t u hu, if_pos ht]
  exact .pure rfl

theorem groupsUntil_cons {g : Nesting} {ends : Token → Bool} {n deep' : Nat} {mid : List Token}
    {first : List Stmt → Prop} {more : List (List Stmt) → Prop} (hn : 0 < n) (hp : Placeless ends)
    (ht : ends t = false) (h : Parses (g.stmts .statement) deep (t :: ts) mid first)
    (hmore : Parses (g.groupsUntil ends (n - 1)) deep' mid rest more) :
    Parses (g.groupsUntil ends n) (max deep deep') (t :: ts) rest
      fun groups => ∃ s ss, groups = s :: ss ∧ first s ∧ more ss := by
  refine .many_some first hn (.token fun u hu => ?_)
    (hmore.weaken fun ss hss s hs => ⟨s, ss, rfl, hs, hss⟩)
  rw [← hp t u hu, ht]
  exact h.bind_zero fun s hs => .pure ⟨s, rfl, hs⟩

end Nesting

end Grammar

end SdkUsage
