/-
A logic of two runs of the grammar. `Follows pre x y post` says that the rule `y` does
what the rule `x` did: started where `pre` relates the two parsers, `y` succeeds if
`x` did, with a value and a parser that `post` relates to those of `x`.

The parsers are `Together` if the tokens to come are the same to the grammar, up to the
end of the first text. The second text may go on after it, but only where the first
could have gone on too: at the start of a line that is in no block. There the second
parser may be further from the end than the first (`Ahead.past`), and no rule but the
one for a whole text may look at the next token, except to see that no clause follows.

Both runs are bounded alike. That a larger bound changes nothing is known from
`statements_tracked`.
-/
import SdkUsage.Grammar.Expression
import SdkUsage.Proofs.Token.Stream
import SdkUsage.Proofs.Tree.Bare

namespace SdkUsage.Grammar

open SdkUsage.Tree

/-! ## The tokens to come -/

/-- The words of clauses that continue a statement on another line. -/
def clauseWords : List String := ["elif", "else", "except", "finally"]

/-- The tokens of a text and of another are the same to the grammar, up to the end of the
first. If there is a `rest`, the second goes on with it. `fresh` at the start of a line,
and `level` counts the blocks. -/
inductive Ahead (rest : Option (List Token)) : (fresh : Bool) → (level : Nat) →
    List Token → List Token → Prop
  | eof {fresh level t u us} : rest = none → t.kind = .eof → u.kind = .eof →
    Ahead rest fresh level [t] (u :: us)
  | past {t u us} : rest = some (u :: us) → t.kind = .eof → u.word ∉ clauseWords →
    Ahead rest true 0 [t] (u :: us)
  | written {fresh level t u ts us} : t.isLayout = false → t.Alike u →
    Ahead rest false level ts us → Ahead rest fresh level (t :: ts) (u :: us)
  | newline {fresh level t u ts us} : t.kind = .newline → u.kind = .newline →
    Ahead rest true level ts us → Ahead rest fresh level (t :: ts) (u :: us)
  | indent {fresh level t u ts us} : t.kind = .indent → u.kind = .indent →
    Ahead rest true (level + 1) ts us → Ahead rest fresh level (t :: ts) (u :: us)
  | dedent {fresh level t u ts us} : t.kind = .dedent → u.kind = .dedent →
    Ahead rest true (level - 1) ts us → Ahead rest fresh level (t :: ts) (u :: us)

namespace Ahead

variable {rest : Option (List Token)} {fresh : Bool} {level : Nat} {t u : Token}
  {ts us : List Token}

theorem layout_alike (ht : t.isLayout = true) (hk : t.kind = u.kind) : t.Alike u :=
  ⟨hk, fun h => by cases ht.symm.trans h⟩

theorem alike (h : Ahead rest false level (t :: ts) (u :: us)) : t.Alike u := by
  cases h with
  | eof _ ht hu => exact layout_alike (Token.isLayout_of_eof ht) (ht.trans hu.symm)
  | written _ h _ => exact h
  | newline ht hu _ => exact layout_alike (by rw [Token.isLayout, ht]) (ht.trans hu.symm)
  | indent ht hu _ => exact layout_alike (by rw [Token.isLayout, ht]) (ht.trans hu.symm)
  | dedent ht hu _ => exact layout_alike (by rw [Token.isLayout, ht]) (ht.trans hu.symm)

/-- At the start of a line less is known of the second text. -/
theorem fresh_line (h : Ahead rest false level ts us) : Ahead rest true level ts us := by
  cases h with
  | eof hr ht hu => exact .eof hr ht hu
  | written hl ha h => exact .written hl ha h
  | newline ht hu h => exact .newline ht hu h
  | indent ht hu h => exact .indent ht hu h
  | dedent ht hu h => exact .dedent ht hu h

/-- At the start of a line the second text goes on as the first, if that goes on. -/
theorem same_line (h : Ahead rest fresh level (t :: ts) us)
    (hk : t.kind ≠ .eof ∨ level ≠ 0 ∨ rest = none) : Ahead rest false level (t :: ts) us := by
  cases h with
  | eof hr ht hu => exact .eof hr ht hu
  | past hr ht =>
    rcases hk with hk | hk | hk
    · exact absurd ht hk
    · exact absurd rfl hk
    · cases hk.symm.trans hr
  | written hl ha h => exact .written hl ha h
  | newline ht hu h => exact .newline ht hu h
  | indent ht hu h => exact .indent ht hu h
  | dedent ht hu h => exact .dedent ht hu h

/-- Where the first text ends, the second goes on with what comes after the first. -/
theorem eq_rest (h : Ahead rest fresh level (t :: ts) (u :: us)) (hk : t.kind = .eof)
    (hr : rest ≠ none) : rest = some (u :: us) ∧ u.word ∉ clauseWords := by
  cases h with
  | eof hn => exact absurd hn hr
  | past h _ hu => exact ⟨h, hu⟩
  | written hl => cases (Token.isLayout_of_eof hk).symm.trans hl
  | newline ht | indent ht | dedent ht => cases hk.symm.trans ht

theorem of_eof {fresh' : Bool} {level' : Nat} (h : Ahead rest false level (t :: ts) us)
    (hk : t.kind = .eof) : Ahead rest fresh' level' (t :: ts) us := by
  cases h with
  | eof hr ht hu => exact .eof hr ht hu
  | written hl => cases (Token.isLayout_of_eof hk).symm.trans hl
  | newline ht | indent ht | dedent ht => cases hk.symm.trans ht

theorem tail_written (h : Ahead rest fresh level (t :: ts) (u :: us)) (ht : t.isLayout = false) :
    Ahead rest false level ts us := by
  cases h with
  | eof _ hk | past _ hk => cases (Token.isLayout_of_eof hk).symm.trans ht
  | written _ _ h => exact h
  | newline hk | indent hk | dedent hk => rw [Token.isLayout, hk] at ht; cases ht

theorem tail_newline (h : Ahead rest fresh level (t :: ts) (u :: us)) (ht : t.kind = .newline) :
    Ahead rest true level ts us := by
  cases h with
  | eof _ hk | past _ hk | indent hk | dedent hk => cases ht.symm.trans hk
  | written hl => rw [Token.isLayout, ht] at hl; cases hl
  | newline _ _ h => exact h

theorem tail_indent (h : Ahead rest fresh level (t :: ts) (u :: us)) (ht : t.kind = .indent) :
    Ahead rest true (level + 1) ts us := by
  cases h with
  | eof _ hk | past _ hk | newline hk | dedent hk => cases ht.symm.trans hk
  | written hl => rw [Token.isLayout, ht] at hl; cases hl
  | indent _ _ h => exact h

theorem tail_dedent (h : Ahead rest fresh level (t :: ts) (u :: us)) (ht : t.kind = .dedent) :
    Ahead rest true (level - 1) ts us := by
  cases h with
  | eof _ hk | past _ hk | newline hk | indent hk => cases ht.symm.trans hk
  | written hl => rw [Token.isLayout, ht] at hl; cases hl
  | dedent _ _ h => exact h

end Ahead

/-! ## Two parsers -/

/-- How two runs compare: how many nodes the second has built more than the first, what
comes after the first text in the second, and how the lexer of the first ends. -/
structure Course where
  shift : Shift
  rest : Option (List Token)
  final : Lexer

/-- Where two parsers are: in how many blocks and brackets the next token is, and how deep
expressions are nested. -/
structure Setting where
  level : Nat
  brackets : Nat
  depth : Nat

/-- The setting after a token. -/
def Setting.after (s : Setting) (text : String) : Setting :=
  { s with brackets := Lexer.depthAfter text.toList s.brackets }

/-- The setting one level of expressions deeper. -/
def Setting.deeper (s : Setting) : Setting := { s with depth := s.depth + 1 }

/-- Two parsers are at the same place. -/
structure Together (fresh : Bool) (c : Course) (s : Setting) (p q : Parser) : Prop where
  ahead : ∃ ts us, p.lexer.Gives ts c.final ∧ (∃ last, q.lexer.Gives us last) ∧
    Ahead c.rest fresh s.level (p.token :: ts) (q.token :: us)
  quiet : p.lexer.Quiet
  plain : p.token.kind ≠ .symbol → p.token.Plain
  brackets : p.lexer.depth = Lexer.depthAfter p.token.word.toList s.brackets
  depth : p.depth = s.depth
  depth' : q.depth = s.depth
  exprs : q.expressions = p.expressions + c.shift.exprs
  stmts : q.statements = p.statements + c.shift.stmts

/-- Two parsers in a line, or at the start of one that the first text has. -/
abbrev InStep : Course → Setting → Parser → Parser → Prop := Together false

/-- Two parsers at the start of a line. -/
abbrev AtBreak : Course → Setting → Parser → Parser → Prop := Together true

/-- Two parsers in step before a token. -/
def On (c : Course) (s : Setting) (t : Token) (p q : Parser) : Prop :=
  InStep c s p q ∧ p.token = t

namespace Together

variable {fresh : Bool} {c : Course} {s : Setting} {p q p' : Parser}

theorem alike (h : InStep c s p q) : p.token.Alike q.token := by
  obtain ⟨_, _, _, _, ha⟩ := h.ahead
  exact ha.alike

/-- Passing a token leads to where its tail is. -/
theorem pass {fresh' : Bool} {level' : Nat} (h : Together fresh c s p q)
    (tail : ∀ ts us, Ahead c.rest fresh s.level (p.token :: ts) (q.token :: us) →
      Ahead c.rest fresh' level' ts us)
    (hp : advance p = .ok () p') :
    ∃ q', advance q = .ok () q' ∧
      Together fresh' c { s.after p.token.word with level := level' } p' q' := by
  obtain ⟨ts, us, hts, ⟨last, hus⟩, ha⟩ := h.ahead
  have ha := tail ts us ha
  unfold advance at hp
  cases ts with
  | nil => cases ha
  | cons t ts =>
    cases us with
    | nil => cases ha
    | cons u us =>
      obtain ⟨l, hn, hts⟩ := hts.uncons
      obtain ⟨l', hn', hus⟩ := hus.uncons
      rw [hn] at hp
      cases hp
      obtain ⟨quiet, plain, brackets, -⟩ := Lexer.next_fair h.quiet hn
      refine ⟨{ q with lexer := l', token := u, stop := q.token.span.stop },
        by rw [advance, hn'], ?_⟩
      exact ⟨⟨ts, us, hts, ⟨last, hus⟩, ha⟩, quiet, plain,
        brackets.trans (by rw [h.brackets]; rfl), h.depth, h.depth', h.exprs, h.stmts⟩

theorem atBreak (h : InStep c s p q) : AtBreak c s p q := by
  obtain ⟨ts, us, hts, hus, ha⟩ := h.ahead
  exact { h with ahead := ⟨ts, us, hts, hus, ha.fresh_line⟩ }

theorem inStep (h : Together fresh c s p q)
    (hk : p.token.kind ≠ .eof ∨ s.level ≠ 0 ∨ c.rest = none) : InStep c s p q := by
  obtain ⟨ts, us, hts, hus, ha⟩ := h.ahead
  exact { h with ahead := ⟨ts, us, hts, hus, ha.same_line hk⟩ }

/-- At the start of a line the first text goes on, or the second with something that
continues no statement. -/
theorem break_cases (h : Together fresh c s p q) : InStep c s p q ∨
    (p.token.kind = .eof ∧ q.token.word ∉ clauseWords) := by
  obtain ⟨_, _, _, _, ha⟩ := h.ahead
  by_cases hk : p.token.kind ≠ .eof ∨ s.level ≠ 0 ∨ c.rest = none
  · exact .inl (h.inStep hk)
  · simp only [not_or, not_not] at hk
    exact .inr ⟨hk.1, (ha.eq_rest hk.1 hk.2.2).2⟩

/-- At the end of the text the blocks do not count. -/
theorem of_eof {fresh' : Bool} {level' : Nat} (h : InStep c s p q) (hk : p.token.kind = .eof) :
    Together fresh' c { s with level := level' } p q := by
  obtain ⟨ts, us, hts, hus, ha⟩ := h.ahead
  exact { h with ahead := ⟨ts, us, hts, hus, ha.of_eof hk⟩ }

theorem with_depth (h : Together fresh c s p q) (d : Nat) :
    Together fresh c { s with depth := d } { p with depth := d } { q with depth := d } :=
  { h with depth := rfl, depth' := rfl }

end Together

/-! ## Rules that follow rules -/

/-- Started where `pre` relates the parsers, `y` succeeds if `x` does, and `post` relates
their values and parsers. -/
def Follows {α β : Type} (pre : Parser → Parser → Prop) (x : Parse α) (y : Parse β)
    (post : α → β → Parser → Parser → Prop) : Prop :=
  ∀ ⦃p q v p'⦄, pre p q → x p = .ok v p' → ∃ w q', y q = .ok w q' ∧ post v w p' q'

/-- Values that look the same, at parsers that are together. -/
def Ends {α β : Type} (fresh : Bool) (view : Shift → α → β) (c : Course) (s : Setting) :
    α → α → Parser → Parser → Prop :=
  fun v w p q => view c.shift v = view {} w ∧ Together fresh c s p q

/-- A rule that follows itself within a line. -/
abbrev Mirrors {α β : Type} (view : Shift → α → β) (c : Course) (s : Setting) (x : Parse α) : Prop :=
  Follows (InStep c s) x x (Ends false view c s)

/-- The view of values without places. -/
abbrev plainly {α : Type} (_ : Shift) (v : α) : α := v

/-- The view of lists. -/
abbrev listing {α β : Type} (view : Shift → α → β) (shift : Shift) (vs : List α) : List β :=
  vs.map (view shift)

/-- The view of optional values. -/
abbrev maybe {α β : Type} (view : Shift → α → β) (shift : Shift) (o : Option α) : Option β :=
  o.map (view shift)

namespace Follows

variable {α β γ δ ε : Type} {pre : Parser → Parser → Prop} {post : α → β → Parser → Parser → Prop}
  {fresh : Bool} {c : Course} {s s' : Setting} {t : Token} {y y' : Parse β} {text context : String}
  {x x' : Parse α} {f : Unit → Parse α} {g : Unit → Parse β} {view : Shift → γ → ε}

/-! ### Laws -/

theorem pure {v : α} {w : β} (h : ∀ p q, pre p q → post v w p q) :
    Follows pre (pure v) (pure w) post := by
  intro p q v' p' hp heq
  cases heq
  exact ⟨w, q, rfl, h p q hp⟩

theorem bind {x : Parse γ} {y : Parse δ} {f : γ → Parse α} {g : δ → Parse β}
    {mid : γ → δ → Parser → Parser → Prop} (hx : Follows pre x y mid)
    (hf : ∀ v w, Follows (mid v w) (f v) (g w) post) : Follows pre (x >>= f) (y >>= g) post := by
  intro p q v p' hp heq
  simp only [Bind.bind, EStateM.bind] at heq
  split at heq
  · next b p₁ hb =>
    obtain ⟨c, q₁, hc, hm⟩ := hx hp hb
    obtain ⟨w, q', hw, hq⟩ := hf b c hm heq
    exact ⟨w, q', by simp only [Bind.bind, EStateM.bind, hc, hw], hq⟩
  · cases heq

theorem weaken {pre' : Parser → Parser → Prop} (h : Follows pre x y post)
    (hpre : ∀ p q, pre' p q → pre p q) : Follows pre' x y post :=
  fun _ _ _ _ hp heq => h (hpre _ _ hp) heq

/-- The parsers may be assumed to be where they are. -/
theorem assume (h : ∀ p q, pre p q → Follows (fun p' q' => p' = p ∧ q' = q) x y post) :
    Follows pre x y post :=
  fun _ _ _ _ hp heq => h _ _ hp ⟨rfl, rfl⟩ heq

/-- Where the parsers are is known. -/
theorem start {p q : Parser} (h : Follows pre x y post) (hpq : pre p q) :
    Follows (fun p' q' => p' = p ∧ q' = q) x y post :=
  h.weaken fun _ _ he => by rw [he.1, he.2]; exact hpq

/-- Nothing follows a rule that fails. -/
theorem failAt {span : Span} {cause : SyntaxError.Cause} :
    Follows pre (failAt span cause : Parse α) y post := by
  intro p q v p' _ heq
  cases heq

theorem fail {cause : SyntaxError.Cause} : Follows pre (fail cause : Parse α) y post := by
  intro p q v p' _ heq
  cases heq

theorem ite {c : Prop} [Decidable c] (hx : c → Follows pre x y post)
    (hx' : ¬ c → Follows pre x' y' post) :
    Follows pre (if c then x else x') (if c then y else y') post := by
  split
  · next h => exact hx h
  · next h => exact hx' h

/-! ### Values -/

/-- A rule with a value that looks the same, and what comes after it. -/
theorem next {x y : Parse γ} {f : γ → Parse α} {g : γ → Parse β}
    (hx : Follows pre x y (Ends fresh view c s))
    (hf : ∀ v w, view c.shift v = view {} w → Follows (Together fresh c s) (f v) (g w) post) :
    Follows pre (x >>= f) (y >>= g) post :=
  hx.bind fun v w => assume fun _ _ hpq => (hf v w hpq.1).start hpq.2

theorem done {v w : γ} (hv : view c.shift v = view {} w) :
    Follows (Together fresh c s) (Pure.pure v) (Pure.pure w) (Ends fresh view c s) :=
  .pure fun _ _ h => ⟨hv, h⟩

theorem some {v w : γ} (hv : view c.shift v = view {} w) :
    Follows (Together fresh c s) (Pure.pure (Option.some v)) (Pure.pure (Option.some w))
      (Ends fresh (maybe view) c s) :=
  .done (congrArg Option.some hv)

/-- An optional value, taken together with whether there is one. -/
theorem nextMaybe {x y : Parse (Option γ)} {f : Option γ → Parse α} {g : Option γ → Parse β}
    (hx : Follows pre x y (Ends fresh (maybe view) c s))
    (hnone : Follows (Together fresh c s) (f .none) (g .none) post)
    (hsome : ∀ v w, view c.shift v = view {} w →
      Follows (Together fresh c s) (f (.some v)) (g (.some w)) post) :
    Follows pre (x >>= f) (y >>= g) post := by
  refine hx.next fun o o' hv => ?_
  cases o with
  | none =>
    cases o' with
    | none => exact hnone
    | some w => cases hv
  | some v =>
    cases o' with
    | none => cases hv
    | some w => exact hsome v w (Option.some.inj hv)

/-! ### Places -/

theorem here {f : Span → Parse α} {g : Span → Parse β} (h : ∀ a b, Follows pre (f a) (g b) post) :
    Follows pre (here >>= f) (here >>= g) post :=
  fun p q _ _ hp heq => h p.token.span q.token.span hp heq

theorem spanSince {a b : Span} {f : Span → Parse α} {g : Span → Parse β}
    (h : ∀ a b, Follows pre (f a) (g b) post) :
    Follows pre (spanSince a >>= f) (spanSince b >>= g) post :=
  fun _ _ _ _ hp heq => h _ _ hp heq

/-- A new expression looks the same if it does with numbers that continue one another. -/
theorem expr {view : Shift → γ → ε} {a b : Span} {make make' : Site → γ}
    (h : ∀ st st' : Site, st.bare c.shift.exprs = st'.bare 0 →
      view c.shift (make st) = view {} (make' st')) :
    Follows (Together fresh c s) (exprSite a >>= fun st => Pure.pure (make st))
      (exprSite b >>= fun st => Pure.pure (make' st)) (Ends fresh view c s) := by
  intro p q v p' hp heq
  cases heq
  refine ⟨_, _, rfl, h _ _ ?_, { hp with exprs := ?_ }⟩
  · simp only [Site.bare, hp.exprs, Nat.add_zero]
  · dsimp only
    rw [hp.exprs]
    omega

theorem stmt {view : Shift → γ → ε} {a b : Span} {make make' : Site → γ}
    (h : ∀ st st' : Site, st.bare c.shift.stmts = st'.bare 0 →
      view c.shift (make st) = view {} (make' st')) :
    Follows (Together fresh c s) (stmtSite a >>= fun st => Pure.pure (make st))
      (stmtSite b >>= fun st => Pure.pure (make' st)) (Ends fresh view c s) := by
  intro p q v p' hp heq
  cases heq
  refine ⟨_, _, rfl, h _ _ ?_, { hp with stmts := ?_ }⟩
  · simp only [Site.bare, hp.stmts, Nat.add_zero]
  · dsimp only
    rw [hp.stmts]
    omega

/-! ### The next token -/

theorem off (h : Follows (InStep c s) x y post) : Follows (On c s t) x y post :=
  fun _ _ _ _ hp heq => h hp.1 heq

/-- The next token may be given a name. -/
theorem on (h : ∀ t, Follows (On c s t) x y post) : Follows (InStep c s) x y post :=
  fun p _ _ _ hp heq => h p.token ⟨hp, rfl⟩ heq

theorem token {f : Token → Parse α} {g : Token → Parse β}
    (h : ∀ u, t.Alike u → Follows (On c s t) (f t) (g u) post) :
    Follows (On c s t) (token >>= f) (token >>= g) post := by
  rintro p q v p' ⟨hp, rfl⟩ heq
  exact h q.token hp.alike ⟨hp, rfl⟩ heq

theorem word {f : String → Parse α} {g : String → Parse β}
    (h : Follows (On c s t) (f t.word) (g t.word) post) :
    Follows (On c s t) (word >>= f) (word >>= g) post := by
  rintro p q v p' ⟨hp, rfl⟩ heq
  have followed := h ⟨hp, rfl⟩ heq
  rwa [hp.alike.word_eq] at followed

theorem kind {f : TokenKind → Parse α} {g : TokenKind → Parse β}
    (h : Follows (On c s t) (f t.kind) (g t.kind) post) :
    Follows (On c s t) (kind >>= f) (kind >>= g) post := by
  rintro p q v p' ⟨hp, rfl⟩ heq
  have followed := h ⟨hp, rfl⟩ heq
  rwa [hp.alike.kind] at followed

/-! ### Passing tokens -/

theorem pass_written (ht : t.isLayout = false)
    (h : Follows (InStep c (s.after t.word)) (f ()) (g ()) post) :
    Follows (On c s t) (advance >>= f) (advance >>= g) post := by
  have passed : Follows (On c s t) Grammar.advance Grammar.advance
      fun _ _ => InStep c (s.after t.word) := by
    intro p q _ p' hp heq
    obtain ⟨hp, rfl⟩ := hp
    obtain ⟨q', hq, h⟩ := hp.pass (fun _ _ ha => ha.tail_written ht) heq
    exact ⟨(), q', hq, h⟩
  exact passed.bind fun _ _ => h

/-- Whether a text is a bracket. -/
def isBracket (text : String) : Bool := ["(", "[", "\x7b", ")", "]", "\x7d"].contains text

theorem after_of_not_bracket (h : isBracket text = false) : s.after text = s := by
  have (l : List Char) (hl : isBracket (String.ofList l) = true) : text.toList ≠ l := by
    rintro rfl
    rw [String.ofList_toList] at hl
    cases h.symm.trans hl
  unfold Setting.after Lexer.depthAfter
  rw [if_neg, if_neg]
  · rintro (h | h | h) <;> exact this _ (by decide) h
  · rintro (h | h | h) <;> exact this _ (by decide) h

/-- Passing a token that is no bracket. -/
theorem advance (ht : t.isLayout = false) (hb : t.kind = .symbol → isBracket t.word = false)
    (h : Follows (InStep c s) (f ()) (g ()) post) :
    Follows (On c s t) (Grammar.advance >>= f) (Grammar.advance >>= g) post := by
  intro p q v p' hp heq
  have same : s.after t.word = s := by
    by_cases hk : t.kind = .symbol
    · exact after_of_not_bracket (hb hk)
    · obtain ⟨hp, rfl⟩ := hp
      unfold Setting.after
      rw [hp.plain hk]
  exact pass_written ht (by rwa [same]) hp heq

/-- A word leads from a setting to another. -/
structure Leads (text : String) (s s' : Setting) : Prop where
  written : (text == "") = false
  after : s.after text = s'

theorem advance_word (ht : t.word = text) (hw : Leads text s s')
    (h : Follows (InStep c s') (f ()) (g ()) post) :
    Follows (On c s t) (Grammar.advance >>= f) (Grammar.advance >>= g) post := by
  have written : t.isLayout = false := Token.isLayout_of_word_ne (ht ▸ ne_of_beq_false hw.written)
  exact pass_written written (by rwa [ht, hw.after])

/-- A word, passed if it comes next. -/
theorem accept_bool {f : Bool → Parse α} {g : Bool → Parse β} (hw : Leads text s s')
    (htrue : Follows (InStep c s') (f true) (g true) post)
    (hfalse : Follows (InStep c s) (f false) (g false) post) :
    Follows (InStep c s) (Grammar.accept text >>= f) (Grammar.accept text >>= g) post := by
  unfold Grammar.accept
  simp only [bind_assoc]
  refine on fun t => word ?_
  by_cases ht : t.word = text
  · simp only [if_pos ht, bind_assoc, pure_bind]
    exact advance_word ht hw htrue
  · simp only [if_neg ht, pure_bind]
    exact hfalse.off

/-- A word that has to come next. -/
theorem expect_to (hw : Leads text s s') (h : Follows (InStep c s') (f ()) (g ()) post) :
    Follows (InStep c s) (Grammar.expect text context >>= f) (Grammar.expect text context >>= g)
      post := by
  unfold Grammar.expect
  simp only [bind_assoc]
  refine on fun t => word ?_
  by_cases ht : t.word = text
  · simp only [if_pos ht]
    exact advance_word ht hw h
  · simp only [if_neg ht]
    intro p q v p' _ heq
    cases heq

/-! Words that are no brackets lead back to where they are found, brackets to another setting, and
brackets that close what was opened to the setting before. -/

theorem advance_same (ht : t.word = text) (hw : Leads text s s)
    (h : Follows (InStep c s) (f ()) (g ()) post) :
    Follows (On c s t) (Grammar.advance >>= f) (Grammar.advance >>= g) post :=
  advance_word ht hw h

theorem accept (hw : Leads text s s) (htrue : Follows (InStep c s) x y post)
    (hfalse : Follows (InStep c s) x' y' post) :
    Follows (InStep c s) (Grammar.accept text >>= fun b => if b = true then x else x')
      (Grammar.accept text >>= fun b => if b = true then y else y') post :=
  accept_bool hw htrue hfalse

theorem expect (hw : Leads text s s) (h : Follows (InStep c s) (f ()) (g ()) post) :
    Follows (InStep c s) (Grammar.expect text context >>= f) (Grammar.expect text context >>= g)
      post :=
  expect_to hw h

theorem advance_open (ht : t.word = text) (hw : Leads text s (s.after text))
    (h : Follows (InStep c (s.after text)) (f ()) (g ()) post) :
    Follows (On c s t) (Grammar.advance >>= f) (Grammar.advance >>= g) post :=
  advance_word ht hw h

theorem accept_close {left : String} (hw : Leads text (s.after left) s)
    (htrue : Follows (InStep c s) x y post)
    (hfalse : Follows (InStep c (s.after left)) x' y' post) :
    Follows (InStep c (s.after left))
      (Grammar.accept text >>= fun b => if b = true then x else x')
      (Grammar.accept text >>= fun b => if b = true then y else y') post :=
  accept_bool hw htrue hfalse

theorem expect_close {left : String} (hw : Leads text (s.after left) s)
    (h : Follows (InStep c s) (f ()) (g ()) post) :
    Follows (InStep c (s.after left)) (Grammar.expect text context >>= f)
      (Grammar.expect text context >>= g) post :=
  expect_to hw h

end Follows

section

variable {α β : Type} {view : Shift → α → β} {c : Course} {s : Setting} {fresh : Bool}

theorem accept_mirrors {text : String} (hw : Follows.Leads text s s) :
    Mirrors plainly c s (accept text) := by
  unfold accept
  exact .on fun t => .word (.ite (fun ht => .advance_same ht hw (.done rfl)) fun _ =>
    .off (.done rfl))

/-- A name that is not reserved. -/
theorem ident_mirrors : Mirrors (fun _ => Ident.bare) c s ident := by
  unfold ident
  refine Follows.on fun t => .token fun u htu => ?_
  rw [← htu.kind]
  refine .ite (fun _ => .fail) fun hk => ?_
  have hk := not_not.1 hk
  have written : t.isLayout = false := by rw [Token.isLayout, hk]
  rw [← htu.text written]
  refine .ite (fun _ => .fail) fun _ => ?_
  exact .advance written (fun hs => by cases hk.symm.trans hs) (.done rfl)

/-! ## Nesting and repetition -/

theorem nested_mirrors {x : Parse α} (h : Mirrors view c s.deeper x) :
    Mirrors view c s (nested x) := by
  intro p q v p' hp heq
  unfold nested at heq ⊢
  rw [hp.depth] at heq
  rw [hp.depth']
  split at heq
  · cases heq
  · next hd =>
    rw [if_neg hd]
    cases hx : x { p with depth := s.depth + 1 } with
    | error => rw [hx] at heq; cases heq
    | ok v₁ p₁ =>
      rw [hx] at heq
      cases heq
      obtain ⟨w, q₁, hw, hv, ht⟩ := h (hp.with_depth (s.depth + 1)) hx
      refine ⟨w, { q₁ with depth := q₁.depth - 1 }, by rw [hw], hv, ?_⟩
      rw [ht.depth, ht.depth']
      exact ht.with_depth s.depth

theorem many_follows {x : Parse (Option α)}
    (h : Follows (Together fresh c s) x x (Ends fresh (maybe view) c s)) (bound : Nat) :
    Follows (Together fresh c s) (many x bound) (many x bound) (Ends fresh (listing view) c s) := by
  induction bound with
  | zero => exact .fail
  | succ bound ih =>
    refine h.nextMaybe (.done rfl) fun v w hv => ih.next fun vs ws hvs => ?_
    exact .done (congrArg₂ List.cons hv hvs)

theorem repeated_follows {f g : α → Parse (Option α)}
    (h : ∀ v w, view c.shift v = view {} w →
      Follows (InStep c s) (f v) (g w) (Ends false (maybe view) c s))
    (bound : Nat) {v w : α} (hv : view c.shift v = view {} w) :
    Follows (InStep c s) (repeated f bound v) (repeated g bound w) (Ends false view c s) := by
  induction bound generalizing v w with
  | zero => exact .fail
  | succ bound ih => exact (h v w hv).nextMaybe (.done hv) fun _ _ hv' => ih hv'

/-- A look at a token that does not depend on its place. -/
def Placeless (look : Token → Bool) : Prop := ∀ t u : Token, t.Alike u → look t = look u

/-- What is done next may depend on a look at the next token. -/
theorem Follows.look {α β : Type} {t : Token} {look : Token → Bool} {x x' : Parse α}
    {y y' : Parse β} {post : α → β → Parser → Parser → Prop} (hl : Placeless look)
    (hx : look t = true → Follows (On c s t) x y post)
    (hx' : look t = false → Follows (On c s t) x' y' post) :
    Follows (On c s t) (Grammar.token >>= fun t => if look t = true then x else x')
      (Grammar.token >>= fun t => if look t = true then y else y') post := by
  refine .token fun u htu => ?_
  rw [← hl t u htu]
  exact .ite hx fun h => hx' (Bool.not_eq_true _ ▸ h)

theorem isWord_placeless (text : String) : Placeless (isWord text) := by
  intro t u h
  unfold isWord
  rw [h.word_eq]

theorem following_mirrors {separator : String} {last : Token → Bool} {item : Parse α}
    (hw : Follows.Leads separator s s) (hl : Placeless last) (h : Mirrors view c s item)
    (bound : Nat) :
    Mirrors (listing view) c s (following separator last item bound) := by
  refine many_follows (.accept hw (.on fun t => .look hl ?_ ?_) (.done rfl)) bound
  · exact fun _ => .off (.done rfl)
  · exact fun _ => .off (h.next fun _ _ => .some)

theorem separated_mirrors {separator : String} {last : Token → Bool} {item : Parse α}
    (hw : Follows.Leads separator s s) (hl : Placeless last) (h : Mirrors view c s item)
    (bound : Nat) :
    Mirrors (listing view) c s (separated separator last item bound) :=
  h.next fun _ _ hv => (following_mirrors hw hl h bound).next fun _ _ hvs =>
    .done (congrArg₂ List.cons hv hvs)

end

end SdkUsage.Grammar
