/-
Expressions are read back. A plain expression is printed as its words with single
spaces between them on one line. Parsing the line gives the same expression, or, where
it is nested too deeply, the error that says so.
-/
import SdkUsage.Proofs.Grammar.Lines
import SdkUsage.Proofs.Token.Layout

namespace SdkUsage

open SdkUsage.Tree

namespace Grammar

namespace Nesting

variable {bound : Nat} {t u : Token}

/-- An expression alone on a line is the only statement of a text. -/
theorem stmtsUntil_expr {e : Expr} (he : e.Plain) (ht : t.kind = .newline) (hu : u.kind = .eof)
    (hlen : (e.words ++ [t, u]).length + 2 ≤ bound) :
    Parses ((rules bound).stmtsUntil endsText) (e.nesting + 1) (e.words ++ [t, u]) [u]
      fun body => ∃ site e', body = [.expr site e'] ∧ Expr.Same e e' := by
  obtain ⟨n, rfl⟩ : ∃ n, bound = n + 1 := ⟨bound - 1, by omega⟩
  have small : Parses (rules n).smallStmt (e.nesting + 1) (e.words ++ [t, u]) [t, u] _ :=
    Recursion.smallStmt_expr he ht (by omega)
  have line : Parses (rules n).simpleStmts (e.nesting + 1) (e.words ++ [t, u]) [u] _ :=
    Recursion.simpleStmts_parses ht (by change 0 < n; omega) small
  have begins : Begins 0 e.words := (Begins.words he).mono (Nat.zero_le _)
  obtain ⟨w, ws, hw⟩ := begins.exists_cons
  rw [hw] at line begins ⊢
  have written : w.isLayout = false := Token.isLayout_of_word_ne (begins.ne (by decide))
  have statement : Parses ((rules (n + 1)).stmts .statement) (e.nesting + 1) (w :: ws ++ [t, u]) [u] _ :=
    statement_simple begins.append line
  have noMore : Parses ((rules (n + 1)).groupsUntil endsText n) 0 [u] [u] (· = []) :=
    groupsUntil_nil (by omega) endsText_placeless (decide_eq_true hu)
  have groups := groupsUntil_cons (Nat.succ_pos n) endsText_placeless (endsText_of_written w written)
    statement noMore
  rw [Nat.max_zero] at groups
  rw [stmtsUntil_eq]
  refine groups.bind_zero fun _ h => .pure ?_
  obtain ⟨_, _, rfl, ⟨_, rfl, site, e', rfl, same⟩, rfl⟩ := h
  exact ⟨site, e', rfl, same⟩

end Nesting

end Grammar

/-! ## Words as tokens -/

namespace Tree

theorem parens_words {place rank : Nat} {ws : List Token} (h : ∀ w ∈ ws, w.IsWord) :
    ∀ w ∈ parens place rank ws, w.IsWord := by
  unfold parens
  split
  · rw [List.forall_mem_cons, List.forall_mem_append, List.forall_mem_singleton]
    exact ⟨by decide, h, by decide⟩
  · exact h

theorem argWords_words {es : List Expr} (h : ∀ e ∈ es, ∀ w ∈ e.words, w.IsWord) :
    ∀ w ∈ argWords es, w.IsWord := by
  have more (es : List Expr) (h : ∀ e ∈ es, ∀ w ∈ e.words, w.IsWord) :
      ∀ w ∈ moreArgWords es, w.IsWord := by
    induction es with
    | nil => simp [moreArgWords]
    | cons e es ih =>
      obtain ⟨he, hes⟩ := List.forall_mem_cons.1 h
      rw [moreArgWords, List.forall_mem_cons, List.forall_mem_append]
      exact ⟨by decide, he, ih hes⟩
  cases es with
  | nil => simp [argWords]
  | cons e es =>
    obtain ⟨he, hes⟩ := List.forall_mem_cons.1 h
    rw [argWords, List.forall_mem_append]
    exact ⟨he, more es hes⟩

theorem linkWords_words {links : List (Comparison Expr)}
    (h : ∀ l ∈ links, ∀ w ∈ l.operand.words, w.IsWord) : ∀ w ∈ linkWords links, w.IsWord := by
  induction links with
  | nil => simp [linkWords]
  | cons link links ih =>
    obtain ⟨op, operand⟩ := link
    obtain ⟨hl, hls⟩ := List.forall_mem_cons.1 h
    rw [linkWords, List.forall_mem_append, List.forall_mem_append]
    exact ⟨by cases op <;> decide, parens_words hl, ih hls⟩

/-- The words of a plain expression are tokens. -/
theorem Expr.Plain.words {e : Expr} (h : e.Plain) : ∀ w ∈ e.words, w.IsWord := by
  induction h with
  | name hid =>
    rw [Expr.words, List.forall_mem_singleton]
    exact hid.isWord
  | number htext =>
    rw [Expr.words, List.forall_mem_singleton]
    exact ⟨htext, fun hk => TokenKind.noConfusion hk⟩
  | member _ hattr ih =>
    rw [Expr.words, List.forall_mem_append, List.forall_mem_cons, List.forall_mem_singleton]
    exact ⟨parens_words ih, by decide, hattr.isWord⟩
  | call _ _ ih ihargs =>
    rw [Expr.words, List.forall_mem_append, List.forall_mem_cons, List.forall_mem_append,
      List.forall_mem_singleton]
    exact ⟨parens_words ih, by decide, argWords_words ihargs, by decide⟩
  | subscript _ _ ih ihindex =>
    rw [Expr.words, List.forall_mem_append, List.forall_mem_cons, List.forall_mem_append,
      List.forall_mem_singleton]
    exact ⟨parens_words ih, by decide, ihindex, by decide⟩
  | @unary _ op _ _ ih =>
    rw [Expr.words, List.forall_mem_cons]
    exact ⟨by cases op <;> decide, parens_words ih⟩
  | @binary _ op _ _ _ _ ihl ihr =>
    rw [Expr.words, List.forall_mem_append, List.forall_mem_cons]
    exact ⟨parens_words ihl, by cases op <;> decide, parens_words ihr⟩
  | @boolean _ op _ _ _ _ ihl ihr =>
    rw [Expr.words, List.forall_mem_append, List.forall_mem_cons]
    exact ⟨parens_words ihl, by cases op <;> decide, parens_words ihr⟩
  | compare _ _ _ ihl ihlinks =>
    rw [Expr.words, List.forall_mem_append]
    exact ⟨parens_words ihl, linkWords_words ihlinks⟩
  | conditional _ _ _ iht ihb iho =>
    rw [Expr.words, List.forall_mem_append, List.forall_mem_cons, List.forall_mem_append,
      List.forall_mem_cons]
    exact ⟨parens_words ihb, by decide, parens_words iht, by decide, iho⟩

/-! ## Printed expressions -/

/-- An expression printed on a line, its words with single spaces between them. -/
def Expr.printed (file : String) (e : Expr) : Source :=
  ⟨file, " ".intercalate (e.words.map Token.text) ++ "\n"⟩

theorem intercalate_words {ws : List Token} (h : ∀ w ∈ ws, w.Spelled) :
    (" ".intercalate (ws.map Token.text)).toList = layoutText 0 true ws := by
  have after (w : Token) (ws : List Token) (h : ∀ w ∈ ws, w.Spelled) :
      [' '].intercalate ((w :: ws).map (·.text.toList)) =
        w.text.toList ++ layoutText 0 false ws := by
    induction ws generalizing w with
    | nil => simp [layoutText]
    | cons v ws ih =>
      obtain ⟨hv, hws⟩ := List.forall_mem_cons.1 h
      have more := ih v hws
      rw [List.map_cons] at more
      rw [List.map_cons, List.map_cons, List.intercalate_cons_cons, more, layoutText_word hv]
      simp
  rw [String.toList_intercalate, List.map_map]
  cases ws with
  | nil => rfl
  | cons w ws =>
    obtain ⟨hw, hws⟩ := List.forall_mem_cons.1 h
    rw [layoutText_word hw]
    exact after w ws hws

/-- The tokens of a printed expression. -/
theorem Expr.printed_lexes {e : Expr} (h : e.Plain) (file : String) :
    ∃ us, (e.printed file).Lexes us ∧
      List.Forall₂ Token.Alike (e.words ++ [⟨.newline, "", default⟩, ⟨.eof, "", default⟩]) us := by
  have spelled : ∀ w ∈ e.words, w.Spelled := fun w hw =>
    ⟨[], by rw [List.append_nil]; exact (h.words w hw).1⟩
  have nonempty : e.words ≠ [] := by
    obtain ⟨w, ws, hw⟩ := (Grammar.Begins.words h).exists_cons
    simp [hw]
  have text : (e.printed file).chars = layoutText 0 true e.words ++ ['\n'] := by
    rw [← intercalate_words spelled]
    exact String.toList_append
  have spells := spells_layoutText 0 true spelled []
  have opens : Opens 0 [] 0 := .close fun _ hmem => absurd hmem List.not_mem_nil
  have prints : Prints 0 (e.words ++ [⟨.newline, "", default⟩, ⟨.eof, "", default⟩])
      (layoutText 0 true e.words ++ ['\n']) := by
    by_cases balanced : e.words.foldl Token.depthPast 0 = 0
    · exact .line opens nonempty spells balanced rfl (.done (.eof rfl))
    · exact .unclosed opens nonempty spells balanced rfl (.eof rfl)
  refine Prints.lexes (text ▸ prints) fun hnul => ?_
  rw [text, List.mem_append] at hnul
  rcases hnul with hnul | hnul
  · rcases mem_layoutText hnul with hc | hc | ⟨w, hw, hc⟩
    · cases hc
    · cases hc
    · exact (h.words w hw).nul_notMem hc
  · cases List.mem_singleton.1 hnul

end Tree

open Grammar in
/-- **Printed expressions are read back**, if they are not nested too deeply. -/
theorem Tree.Expr.printed_parses {e : Expr} (h : e.Plain) (file : String) :
    (e.nesting < maxDepth → ∃ m site e', parse (e.printed file) = .ok m ∧
      m.body = [.expr site e'] ∧ e.Same e') ∧
    (maxDepth ≤ e.nesting → ∃ error, parse (e.printed file) = .error error ∧
      error.cause = .tooDeep ∧ error.cause.message = "expression is nested too deeply") := by
  obtain ⟨us, lexes, alike⟩ := Expr.printed_lexes h file
  obtain ⟨succeeds, fails⟩ := parse_of_parses lexes alike fun bound hb =>
    Nesting.stmtsUntil_expr h rfl rfl hb
  refine ⟨fun hlt => ?_, fun hle => ?_⟩
  · obtain ⟨m, hm, site, e', body, same⟩ := succeeds hlt
    exact ⟨m, site, e', hm, body, same⟩
  · obtain ⟨error, failed, cause⟩ := fails (Nat.lt_succ_of_le hle)
    exact ⟨error, failed, cause, by rw [cause]; rfl⟩

/-- An expression with operators of many levels, in places that bind looser and tighter. -/
def Tree.Expr.crowded : Expr :=
  let name (id : String) : Expr := .name default id
  let power : Expr := .binary default .pow (.unary default .invert (.number default "1e-5"))
    (.unary default .neg (.binary default .pow (name "a") (name "b")))
  let product : Expr := .binary default .mul power (.binary default .sub (name "x") (name "y"))
  let call : Expr := .call default (.member default (.unary default .neg (name "a")) ⟨"f", default⟩)
    [name "x", .conditional default (name "x") (name "y") (name "z")] []
  let index : Expr := .compare default (name "x") [⟨.lt, name "y"⟩]
  let chain : Expr := .compare default product
    [⟨.isNot, .boolean default .or (name "x") (name "y")⟩, ⟨.notIn, .subscript default call index⟩]
  .boolean default .and (.unary default .not chain) (name "_")

/-- A name with signs before it. -/
def Tree.Expr.signed (n : Nat) : Expr := n.repeat (.unary default .neg) (.name default "x")

theorem Tree.Expr.crowded_printed_parses : crowded.Plain ∧ (crowded.printed "a.py").text =
    "not ( ~ 1e-5 ) ** - a ** b * ( x - y ) is not ( x or y ) not in "
      ++ "( - a ) . f ( x , y if x else z ) [ x < y ] and _\n" ∧
    (∃ m site e', parse (crowded.printed "a.py") = .ok m ∧ m.body = [.expr site e'] ∧
      crowded.Same e') ∧
    (signed 32).Plain ∧ ∃ error, parse ((signed 32).printed "a.py") = .error error ∧
      error.cause = .tooDeep ∧ error.cause.message = "expression is nested too deeply" := by
  have name (id : String) (h : IsName id) : (Expr.name default id).Plain := .name h
  have a := name "a" (by decide)
  have x := name "x" (by decide)
  have y := name "y" (by decide)
  have call : (Expr.call default (.member default (.unary default .neg (.name default "a"))
      ⟨"f", default⟩) [.name default "x", .conditional default (.name default "x")
        (.name default "y") (.name default "z")] []).Plain := by
    refine .call (.member (.unary a) (by decide)) ?_
    simpa using ⟨x, .conditional x y (name "z" (by decide))⟩
  have index : (Expr.compare default (.name default "x") [⟨.lt, .name default "y"⟩]).Plain :=
    .compare x (by simp) (by simpa using y)
  have crowdedPlain : crowded.Plain := by
    refine .boolean (.unary (.compare (.binary (.binary (.unary (.number (by decide)))
      (.unary (.binary a (name "b" (by decide))))) (.binary x y)) (by simp) ?_))
      (name "_" (by decide))
    simpa using ⟨.boolean x y, .subscript call index⟩
  have signedPlain (n : Nat) : (signed n).Plain := by
    induction n with
    | zero => exact name "x" (by decide)
    | succ n ih => exact .unary ih
  exact ⟨crowdedPlain, by decide, (printed_parses crowdedPlain "a.py").1 (by decide), signedPlain 32,
    (printed_parses (signedPlain 32) "a.py").2 (by decide)⟩

end SdkUsage
