/-
Parsing is compositional. Of two texts that are parsed, the first of whole lines, the one behind
the other is parsed as well, into the statements of the first and then those of the second.

The first text leaves nothing open: it is read up to its end token (`parse_run`), with all
brackets closed (`ParseRun.depth`). The second does not continue the last statement of the first
(`ParseRun.first`). So the lexer gives the tokens of both, and the grammar follows the run of the
one (`ParseRun.goes_on`) and then that of the other (`ParseRun.again`).
-/
import SdkUsage.Proofs.Grammar.Refuse
import SdkUsage.Proofs.Termination
import SdkUsage.Proofs.Token.Append
import SdkUsage.Proofs.Token.Shape

namespace SdkUsage

open SdkUsage.Tree Grammar

/-! ## Statements one after another -/

namespace Grammar.Nesting

variable {g : Nesting} {ends : Token → Bool} {b : Nat} {p q : Parser} {vs : List (List Stmt)}

/-- The groups of statements up to a token that ends them: none, or one and the others. -/
theorem groups_succ : many (g.group? ends) (b + 1) p = .ok vs q ↔
    (ends p.token = true ∧ vs = [] ∧ q = p) ∨
    (ends p.token = false ∧ ∃ v ws p', g.stmts .statement p = .ok v p' ∧
      many (g.group? ends) b p' = .ok ws q ∧ vs = v :: ws) := by
  have round : g.group? ends p = (if ends p.token = true then pure none
      else (do return some (← g.stmts .statement)) : Parse (Option (List Stmt))) p := rfl
  rw [many]
  simp only [Bind.bind, EStateM.bind, round]
  by_cases hends : ends p.token = true
  · simp only [hends, if_true, true_and, reduceCtorEq, false_and, or_false]
    constructor
    · intro h
      cases h
      exact ⟨rfl, rfl⟩
    · rintro ⟨rfl, rfl⟩
      rfl
  · rw [Bool.not_eq_true] at hends
    simp only [hends, Bool.false_eq_true, if_false, false_and, false_or, true_and]
    cases hs : g.stmts .statement p with
    | error => simp [EStateM.bind, hs]
    | ok v p' =>
      cases hm : many (g.group? ends) b p' with
      | error => simp [EStateM.bind, hs, hm, Pure.pure, EStateM.pure]
      | ok ws q' =>
        simp only [EStateM.bind, hs, hm, Pure.pure, EStateM.pure]
        constructor
        · intro h
          cases h
          exact ⟨v, ws, p', rfl, hm, rfl⟩
        · rintro ⟨_, _, _, ⟨⟩, hm', rfl⟩
          cases hm.symm.trans hm'
          rfl

/-- **The statements of the first text.** At its end the second goes on, and what is read there
comes after the statements that are the same. -/
theorem groups_followed {c : Course} {s : Setting} {p' : Parser} (hg : g.Followed)
    (hp : AtBreak c s p q) (hrun : many (g.group? endsText) b p = .ok vs p') :
    ∃ ws q', vs.map (listing Stmt.bare c.shift) = ws.map (listing Stmt.bare {}) ∧
      AtBreak c s p' q' ∧ ∀ b' more q'', many (g.group? endsText) b' q' = .ok more q'' →
        many (g.group? endsText) (b' + vs.length) q = .ok (ws ++ more) q'' := by
  induction b generalizing p q vs with
  | zero => cases hrun
  | succ b ih =>
    rcases groups_succ.1 hrun with ⟨-, rfl, rfl⟩ | ⟨goes, v, vs, p₁, hv, hvs, rfl⟩
    · exact ⟨[], q, rfl, hp, fun _ _ _ h => h⟩
    · have same := hp.inStep (.inl (of_decide_eq_false goes))
      have goes' : endsText q.token = false := by
        rw [← endsText_placeless _ _ same.alike]
        exact goes
      obtain ⟨w, q₁, hw, alike, after⟩ := hg.statement c s same hv
      obtain ⟨ws, q', rest, last, join⟩ := ih after hvs
      refine ⟨w :: ws, q', ?_, last, fun b' more q'' h => ?_⟩
      · rw [List.map_cons, List.map_cons, rest]
        exact congrArg (· :: _) alike
      · exact groups_succ.2 (.inr ⟨goes', w, ws ++ more, q₁, hw, join b' more q'' h, rfl⟩)

end Grammar.Nesting

/-! ## The run of a source that is parsed -/

/-- The tokens that a parser passes are those that its lexer gave. -/
theorem Grammar.Parser.Passes.gives {p q : Parser} {ts : List Token} (h : p.Passes ts q) {l : Lexer}
    (hn : l.next = (.ok p.token, p.lexer)) : l.Gives (ts ++ [q.token]) q.lexer := by
  induction h generalizing l with
  | nil hl ht =>
    rw [hl, ht]
    exact .cons hn (.nil _)
  | cons _ hp _ ih =>
    obtain ⟨t, l', hn', rfl⟩ := advance_eq_ok hp
    exact .cons hn (ih hn')

theorem Grammar.Parser.Passes.ended {p q : Parser} {ts : List Token} (h : p.Passes ts q)
    (hq : q.token.kind = .eof) : Lexer.Ended (ts ++ [q.token]) := by
  induction h with
  | nil => exact .last hq
  | cons hk _ _ ih => exact .cons hk (ih hq)

/-- A lexer gives the words that continue a statement as names. -/
theorem Grammar.Continuing.of_fair {l l' : Lexer} {t : Token} (h : l.Fair t l')
    (hw : t.word ∈ clauseWords) : Continuing t := by
  have written : ∀ word ∈ clauseWords, word ≠ "" ∧ word ∉ symbols := by decide
  have spelled := h.spelled
  refine ⟨?_, hw⟩
  unfold Token.word at hw
  unfold Token.isLayout at spelled
  cases hk : t.kind with
  | ident => rfl
  | symbol =>
    simp only [hk] at hw spelled
    exact absurd (spelled_mem_symbols (spelled trivial) hk) (written _ hw).2
  | number =>
    simp only [hk] at hw spelled
    obtain ⟨after, found⟩ := spelled trivial
    rw [hk] at found
    simp only [clauseWords, List.mem_cons, List.not_mem_nil, or_false] at hw
    generalize ht : t.text.toList ++ after = text at found
    generalize t.text.toList = token at found
    cases tokenAt?_cases found with
    | number hn =>
      rcases hw with hw | hw | hw | hw <;> rw [← ht, hw] at hn <;> cases hn
  | string | newline | indent | dedent | eof =>
    simp only [hk] at hw
    exact absurd rfl (written _ hw).1

/-- What is known of the run of a source that is parsed: it comes from the first token to the
end token. -/
structure ParseRun (source : Source) (m : Module) (p : Parser) (ts : List Token) (p' : Parser) :
    Prop where
  start : Parser.start source = .ok p
  run : ∀ k, p.budget ≤ k →
    ∃ vs, many ((rules k).group? endsText) k p = .ok vs p' ∧ m.body = vs.flatten
  expressions : p'.expressions = m.expressions
  statements : p'.statements = m.statements
  next : (Lexer.start source).next = (.ok p.token, p.lexer)
  eof : p'.token.kind = .eof
  passes : p.Passes ts p'

theorem parse_run {source : Source} {m : Module} (h : parse source = .ok m) :
    ∃ p ts p', ParseRun source m p ts p' := by
  obtain ⟨l, t, next, start⟩ : ∃ l t, (Lexer.start source).next = (.ok t, l) ∧
      Parser.start source = .ok ⟨l, t, 0, 0, 0, 0⟩ := by
    cases start : Parser.start source with
    | error e =>
      unfold parse at h
      rw [start] at h
      cases h
    | ok p =>
      obtain ⟨t, l, next, rfl⟩ := Parser.start_ok start
      exact ⟨l, t, next, rfl⟩
  have quiet := Parser.start_lexer_quiet start
  obtain ⟨vs, p', run, rfl⟩ := (parse_ok_iff start (Nat.le_refl _) (Nat.le_refl _)).1 h
  have ends : endsText p'.token = true := Nesting.groups_end _ endsText _ trivial run
  have enough := Nat.le_refl (Parser.budget ⟨l, t, 0, 0, 0, 0⟩)
  have proceeds := (groups_agree quiet enough enough enough enough).2
  rw [run] at proceeds
  obtain ⟨⟨ts, passes⟩, -⟩ := proceeds
  refine ⟨_, ts, p', start, fun k hk => ⟨vs, ?_, rfl⟩, rfl, rfl, next, of_decide_eq_true ends, passes⟩
  exact (groups_bounded quiet hk (Nat.le_refl _) hk (Nat.le_refl _)).trans run

namespace ParseRun

variable {source : Source} {m : Module} {p p' : Parser} {ts : List Token}

theorem gives (h : ParseRun source m p ts p') :
    (Lexer.start source).Gives (ts ++ [p'.token]) p'.lexer :=
  h.passes.gives h.next

theorem ended (h : ParseRun source m p ts p') : Lexer.Ended (ts ++ [p'.token]) :=
  h.passes.ended h.eof

/-- A source is cut into its first token and the others. -/
theorem uncons (h : ParseRun source m p ts p') :
    ∃ us, ts ++ [p'.token] = p.token :: us ∧ p.lexer.Gives us p'.lexer := by
  have given := h.gives
  cases hts : ts ++ [p'.token] with
  | nil => simp at hts
  | cons t us =>
    rw [hts] at given
    obtain ⟨l, next, rest⟩ := given.uncons
    cases h.next.symm.trans next
    exact ⟨us, rfl, rest⟩

/-- **The statements of a source are read where its tokens come,** whatever was read before. -/
theorem again {q : Parser} {us : List Token} {last : Lexer} {bound : Nat}
    (h : ParseRun source m p ts p') (shift : Shift)
    (ha : List.Forall₂ Token.Alike (ts ++ [p'.token]) (q.token :: us)) (hq : q.lexer.Gives us last)
    (hd : q.depth = 0) (he : q.expressions = shift.exprs) (hs : q.statements = shift.stmts)
    (hb : p.budget ≤ bound) :
    ∃ vs q', many ((rules bound).group? endsText) bound q = .ok vs q' ∧
      vs.flatten.map (Stmt.bare {}) = m.body.map (Stmt.bare shift) ∧
      InStep ⟨shift, none, p'.lexer⟩ ⟨0, 0, 0⟩ p' q' := by
  obtain ⟨xs, hxs, given⟩ := h.uncons
  have ended := h.ended
  rw [hxs] at ha ended
  have together : InStep ⟨shift, none, p'.lexer⟩ ⟨0, 0, 0⟩ p q :=
    .of_start h.start given hq (.of_alike ended ha) hd he hs
  obtain ⟨vs, groups, body⟩ := h.run bound hb
  obtain ⟨ws, q', again, same, after⟩ := many_follows (Nesting.group_mirrors
    (statements_followed bound) endsText_placeless (.inr rfl)) bound together groups
  refine ⟨ws, q', again, ?_, after⟩
  rw [body, List.map_flatten, List.map_flatten]
  exact congrArg List.flatten same.symm

/-- **All brackets are closed at the end of a source that is parsed,** since its run follows
itself and the grammar closes what it opens. -/
theorem depth (h : ParseRun source m p ts p') : p'.lexer.depth = 0 := by
  obtain ⟨us, hts, given⟩ := h.uncons
  obtain ⟨t, l, -, rfl⟩ := Parser.start_ok h.start
  have alike : List.Forall₂ Token.Alike (ts ++ [p'.token]) (t :: us) := by
    rw [hts]
    exact List.forall₂_same.2 fun t _ => .refl t
  obtain ⟨-, q', -, -, after⟩ := h.again {} alike given rfl rfl rfl (Nat.le_refl _)
  rw [after.brackets, Token.word_eq_of_isLayout (Token.isLayout_of_eof h.eof)]
  rfl

/-! ## The first token -/

/-- **No source that is parsed starts with a word that continues a statement, or indented.** -/
theorem first (h : ParseRun source m p ts p') :
    p.token.kind ≠ .indent ∧ p.token.word ∉ clauseWords := by
  have refused (hp : Continuing p.token ∨ p.token.kind = .indent) : False := by
    have goes : p.token.kind ≠ .eof := by
      rcases hp with hp | hp
      · rw [hp.kind]
        decide
      · rw [hp]
        decide
    obtain ⟨vs, groups, -⟩ := h.run _ (Nat.le_refl _)
    rcases Nesting.groups_succ.1 groups with ⟨ends, -⟩ | ⟨-, v, -, p₁, run, -⟩
    · exact goes (of_decide_eq_true ends)
    · exact statement_refuses hp _ rfl run
  exact ⟨fun hk => refused (.inr hk), fun hw => refused (.inl (.of_fair
    (Lexer.next_fair (Lexer.start_quiet source) h.next) hw))⟩

end ParseRun

/-! ## The tokens of both -/

/-- The tokens of a text, with others behind that do not continue its last statement. -/
theorem Lexer.Gives.ahead {l last : Lexer} {before ts us vs : List Token} {e u : Token}
    (hg : l.Gives (ts ++ [e]) last) (hs : l.Stage before) (hb : ∀ t ∈ before, t.kind ≠ .eof)
    (hend : Ended (ts ++ [e])) (ha : List.Forall₂ Token.Alike ts us) (hu : u.word ∉ clauseWords) :
    Ahead (some (u :: vs)) (before.getLast?.all Token.isLayout)
      (countKind .indent before - countKind .dedent before) (ts ++ [e]) (us ++ u :: vs) := by
  induction ha generalizing l before with
  | nil =>
    obtain ⟨after, hn, -⟩ := hg.uncons
    cases hend with
    | cons _ h => cases h
    | last he =>
      obtain ⟨fits, -⟩ := (next_eq_ok_iff.1 hn).stage hs
      obtain ⟨layout, count⟩ := fits.eof he hb
      have fresh : before.getLast?.all Token.isLayout = true := by
        cases hlast : before.getLast? with
        | none => rfl
        | some t =>
          rw [Option.all_some, Token.isLayout]
          rcases layout t hlast with hk | hk <;> rw [hk]
      rw [fresh, count, Nat.sub_self]
      exact .past rfl he hu
  | @cons t v ts us htv _ ih =>
    obtain ⟨after, hn, hg⟩ := hg.uncons
    obtain ⟨-, stage⟩ := (next_eq_ok_iff.1 hn).stage hs
    have balanced := hs.balanced
    obtain ⟨hk, hend⟩ := hend.uncons (by simp)
    have noEof : ∀ u ∈ before ++ [t], u.kind ≠ .eof := by
      intro u hu
      rcases List.mem_append.1 hu with hu | hu
      · exact hb u hu
      · rw [List.mem_singleton.1 hu]
        exact hk
    have rest := ih hg stage noEof hend
    rw [List.getLast?_concat, Option.all_some, countKind_concat, countKind_concat, Token.isLayout]
      at rest
    cases ht : t.kind with
    | eof => exact absurd ht hk
    | newline =>
      rw [ht] at rest
      exact .newline ht (htv.kind ▸ ht) rest
    | indent =>
      rw [ht] at rest
      refine .indent ht (htv.kind ▸ ht) ?_
      rw [← Nat.sub_add_comm balanced]
      exact rest
    | dedent =>
      rw [ht] at rest
      exact .dedent ht (htv.kind ▸ ht) rest
    | symbol | string | number | ident =>
      rw [ht] at rest
      exact .written (by rw [Token.isLayout, ht]) htv rest

/-! ## Sources one behind the other -/

/-- The statements of a source are read where its tokens come with others behind, and then the
parser is at the first of these. -/
theorem ParseRun.goes_on {source : Source} {m : Module} {p p' q : Parser} {ts us : List Token}
    {u : Token} {bound : Nat} (h : ParseRun source m p ts p')
    (hq : AtBreak ⟨{}, some (u :: us), p'.lexer⟩ ⟨0, 0, 0⟩ p q) (hb : p.budget ≤ bound) :
    ∃ vs q' k, vs.flatten.map (Stmt.bare {}) = m.body.map (Stmt.bare {}) ∧ q'.token = u ∧
      (∃ last, q'.lexer.Gives us last) ∧ q'.depth = 0 ∧ q'.expressions = m.expressions ∧
      q'.statements = m.statements ∧ ∀ b more q'',
        many ((rules bound).group? endsText) b q' = .ok more q'' →
        many ((rules bound).group? endsText) (b + k) q = .ok (vs ++ more) q'' := by
  obtain ⟨vs, groups, body⟩ := h.run bound hb
  obtain ⟨ws, q', same, after, join⟩ :=
    Nesting.groups_followed (statements_followed bound) hq groups
  obtain ⟨_, vs', -, given, ahead⟩ := after.ahead
  obtain ⟨rest, -⟩ := ahead.eq_rest h.eof (by simp)
  obtain ⟨rfl, rfl⟩ := List.cons.inj (Option.some.inj rest)
  refine ⟨ws, q', vs.length, ?_, rfl, given, after.depth', after.exprs.trans h.expressions,
    after.stmts.trans h.statements, join⟩
  rw [body, List.map_flatten, List.map_flatten]
  exact congrArg List.flatten same.symm

/-- The parser at the start of a source that is cut into tokens. -/
theorem Source.Lexes.start {source : Source} {ts : List Token} (h : source.Lexes ts) :
    ∃ l t us last, Parser.start source = .ok ⟨l, t, 0, 0, 0, 0⟩ ∧ ts = t :: us ∧
      l.Gives us last := by
  obtain ⟨hend, last, given⟩ := h
  cases given with
  | nil => cases hend
  | @cons _ t l us _ next given => exact ⟨l, t, us, last, Parser.start_of_next next, rfl, given⟩

/-- **Parsing is compositional.** If a source without NUL characters is parsed and ends with a line
feed that no backslash joins to the next line, then with a source that is parsed behind it it is
parsed. Its statements are those of the first and then those of the second, up to spans, with
the numbers of the second shifted by those that the first has used. -/
theorem Source.parse_append {a b : Source} {ma mb : Module} (ha : parse a = .ok ma)
    (hb : parse b = .ok mb) (hnul : '\x00' ∉ a.chars) (hline : a.chars.getLast? = some '\n')
    (hjoined : ¬ ['\\', '\n'] <:+ a.chars) (hreturned : ¬ ['\\', '\r', '\n'] <:+ a.chars) :
    ∃ m, parse (a.append b) = .ok m ∧
      m.body.map (Stmt.bare {}) = ma.body.map (Stmt.bare {}) ++
        mb.body.map (Stmt.bare ⟨ma.expressions, ma.statements⟩) ∧
      m.expressions = ma.expressions + mb.expressions ∧
      m.statements = ma.statements + mb.statements := by
  obtain ⟨p, ts, p', run⟩ := parse_run ha
  obtain ⟨r, us, r', run'⟩ := parse_run hb
  obtain ⟨xs, hxs, given⟩ := run.uncons
  obtain ⟨ys, hys, -⟩ := run'.uncons
  obtain ⟨indent, clause⟩ := run'.first
  have lexes : b.Lexes (r.token :: ys) := hys ▸ ⟨run'.ended, r'.lexer, run'.gives⟩
  have lines : WholeLines a.chars :=
    ⟨fun c hc => Option.some.inj (hc.symm.trans hline), hjoined, hreturned⟩
  obtain ⟨ts', zs, both, alike, alike'⟩ :=
    lexes_append hnul lines run.ended run.gives run.depth lexes indent
  obtain ⟨z, zs, hz, hzs, rfl⟩ := List.forall₂_cons_left_iff.1 alike'
  have ahead : Ahead (some (z :: zs)) true 0 (ts ++ [p'.token]) (ts' ++ z :: zs) :=
    run.gives.ahead (Lexer.stage_start a) (by simp) run.ended alike (hz.word_eq ▸ clause)
  obtain ⟨l, w, ws, last, start, hws, both⟩ := both.start
  rw [hxs, hws] at ahead
  have together : AtBreak ⟨{}, some (z :: zs), p'.lexer⟩ ⟨0, 0, 0⟩ p ⟨l, w, 0, 0, 0, 0⟩ :=
    .of_start run.start given both ahead rfl rfl rfl
  -- A bound that is large enough for both texts and for the whole.
  obtain ⟨bound, hp, hr, hl⟩ : ∃ bound, p.budget ≤ bound ∧ r.budget ≤ bound ∧
      Parser.budget ⟨l, w, 0, 0, 0, 0⟩ ≤ bound :=
    ⟨p.budget + r.budget + Parser.budget ⟨l, w, 0, 0, 0, 0⟩, by omega, by omega, by omega⟩
  obtain ⟨vs, q, k, body, rfl, ⟨_, rest⟩, depth, exprs, stmts, join⟩ := run.goes_on together hp
  obtain ⟨vs', q', more, body', after⟩ :=
    run'.again ⟨ma.expressions, ma.statements⟩ (hys ▸ .cons hz hzs) rest depth exprs stmts hr
  refine ⟨⟨(vs ++ vs').flatten, q'.expressions, q'.statements⟩,
    (parse_ok_iff start hl (Nat.le_add_right_of_le hl)).2 ⟨_, q', join _ _ _ more, rfl⟩, ?_, ?_, ?_⟩
  · rw [List.flatten_append, List.map_append, body, body']
  · exact after.exprs.trans (by rw [run'.expressions, Nat.add_comm])
  · exact after.stmts.trans (by rw [run'.statements, Nat.add_comm])

/-- A text that ends in blocks, after lines joined by a bracket and a string of two lines. -/
def Source.openBlocks : Source where
  file := "main.py"
  text := "import boto3\nif x:\n\tdef f(y,\n z): # s\n\t\treturn '''u\n'''[y]\r\n"

/-- A text that starts with lines that hold no tokens and ends in a line. -/
def Source.blankStart : Source where
  file := "more.py"
  text := "  # c\n\n\t\nprint(x).m\nwhile 1: pass"

theorem Source.openBlocks_appended : ∃ ma mb m, parse openBlocks = .ok ma ∧
    parse blankStart = .ok mb ∧ '\x00' ∉ openBlocks.chars ∧
    openBlocks.chars.getLast? = some '\n' ∧ ¬ ['\\', '\n'] <:+ openBlocks.chars ∧
    ¬ ['\\', '\r', '\n'] <:+ openBlocks.chars ∧ parse (openBlocks.append blankStart) = .ok m ∧
    ma.body.length = 2 ∧ mb.body.length = 2 ∧
    m.body.map (Stmt.bare {}) = ma.body.map (Stmt.bare {}) ++ mb.body.map (Stmt.bare ⟨4, 4⟩) ∧
    m.expressions = 4 + 5 ∧ m.statements = 4 + 3 := by
  have found : (parse openBlocks).toOption.map
      (fun m => (m.body.length, m.expressions, m.statements)) = some (2, 4, 4) := by
    decide +kernel
  have found' : (parse blankStart).toOption.map
      (fun m => (m.body.length, m.expressions, m.statements)) = some (2, 5, 3) := by
    decide +kernel
  have clean : '\x00' ∉ openBlocks.chars ∧ openBlocks.chars.getLast? = some '\n' ∧
      ¬ ['\\', '\n'] <:+ openBlocks.chars ∧ ¬ ['\\', '\r', '\n'] <:+ openBlocks.chars := by
    decide +kernel
  obtain ⟨nul, line, joined, returned⟩ := clean
  cases ha : parse openBlocks with
  | error => rw [ha] at found; cases found
  | ok ma =>
    cases hb : parse blankStart with
    | error => rw [hb] at found'; cases found'
    | ok mb =>
      rw [ha] at found
      rw [hb] at found'
      obtain ⟨length, counts⟩ := Prod.mk.inj (Option.some.inj found)
      obtain ⟨exprs, stmts⟩ := Prod.mk.inj counts
      obtain ⟨length', counts'⟩ := Prod.mk.inj (Option.some.inj found')
      obtain ⟨exprs', stmts'⟩ := Prod.mk.inj counts'
      obtain ⟨m, parsed, body, total, total'⟩ := parse_append ha hb nul line joined returned
      rw [exprs, stmts] at body
      rw [exprs, exprs'] at total
      rw [stmts, stmts'] at total'
      exact ⟨ma, mb, m, rfl, rfl, nul, line, joined, returned, parsed, length, length', body, total,
        total'⟩

end SdkUsage
