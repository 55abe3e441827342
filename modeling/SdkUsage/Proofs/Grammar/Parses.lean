/-
Rules that parse given tokens. `Parses rule deep ts rest post` says what a rule does
where the tokens `ts` come next: it passes them up to `rest` and gives a value as
`post` says. It enters expressions `deep` levels below the level it is on. Where so
many are not left, it fails because expressions are nested too deeply.

There is a law for each way in which rules are put together, so that what a rule
reads is shown along its text.
-/
import Mathlib.Data.List.Forall2
import SdkUsage.Grammar.Statement
import SdkUsage.Proofs.Token.Stream

namespace SdkUsage.Grammar

open SdkUsage.Tree

/-- The tokens to come are the given ones, as far as the grammar can tell. -/
def Sees (p : Parser) (ts : List Token) : Prop :=
  ∃ us last, p.lexer.Gives us last ∧ List.Forall₂ Token.Alike ts (p.token :: us)

/-- Where the tokens `ts` come, a rule passes them up to `rest` and gives a value as `post`
says, if expressions may be nested `deep` levels deeper; else it fails because of that. -/
def Parses {α : Type} (rule : Parse α) (deep : Nat) (ts rest : List Token) (post : α → Prop) :
    Prop :=
  ∀ p, Sees p ts → p.depth ≤ maxDepth →
    (p.depth + deep ≤ maxDepth →
      ∃ v q, rule p = .ok v q ∧ Sees q rest ∧ q.depth = p.depth ∧ post v) ∧
    (maxDepth < p.depth + deep → ∃ e q, rule p = .error e q ∧ e.cause = .tooDeep)

theorem Sees.alike {p : Parser} {t : Token} {ts : List Token} (h : Sees p (t :: ts)) :
    t.Alike p.token := by
  obtain ⟨us, last, -, alike⟩ := h
  exact (List.forall₂_cons.1 alike).1

theorem Sees.advance {p : Parser} {t u : Token} {ts : List Token} (h : Sees p (t :: u :: ts)) :
    ∃ q, advance p = .ok () q ∧ Sees q (u :: ts) ∧ q.depth = p.depth := by
  obtain ⟨us, last, given, alike⟩ := h
  obtain ⟨-, alike⟩ := List.forall₂_cons.1 alike
  cases us with
  | nil => cases alike
  | cons v vs =>
    obtain ⟨l, hn, given⟩ := given.uncons
    refine ⟨{ p with lexer := l, token := v, stop := p.token.span.stop }, ?_, ?_, rfl⟩
    · rw [Grammar.advance, hn]
    · exact ⟨vs, last, given, alike⟩

namespace Parses

variable {α β : Type} {deep deep' bound : Nat} {t u : Token} {ts mid rest : List Token}
  {post : α → Prop} {mid_post : β → Prop} {x : Parse β} {f : β → Parse α} {text : String}
  {start : Span}

/-! ## Laws -/

theorem pure {v : α} (h : post v) : Parses (pure v) 0 ts ts post :=
  fun p hp hd => ⟨fun _ => ⟨v, p, rfl, hp, rfl, h⟩, fun hlt => by omega⟩

theorem bind (hx : Parses x deep ts mid mid_post)
    (hf : ∀ v, mid_post v → Parses (f v) deep' mid rest post) :
    Parses (x >>= f) (max deep deep') ts rest post := by
  intro p hp hd
  obtain ⟨succeeds, fails⟩ := hx p hp hd
  by_cases hdeep : p.depth + deep ≤ maxDepth
  · obtain ⟨v, q, hv, hq, hqd, hpost⟩ := succeeds hdeep
    have run : (x >>= f) p = f v q := by simp only [Bind.bind, EStateM.bind, hv]
    obtain ⟨succeeds', fails'⟩ := hf v hpost q hq (by omega)
    rw [run]
    refine ⟨fun hle => ?_, fun hlt => fails' (by omega)⟩
    obtain ⟨w, q', hw, hq', hqd', hpost'⟩ := succeeds' (by omega)
    exact ⟨w, q', hw, hq', by omega, hpost'⟩
  · obtain ⟨e, q, he, hcause⟩ := fails (by omega)
    have run : (x >>= f) p = .error e q := by simp only [Bind.bind, EStateM.bind, he]
    exact ⟨fun hle => by omega, fun _ => ⟨e, q, run, hcause⟩⟩

/-- A rule that enters no expression, and one after it. -/
theorem zero_bind (hx : Parses x 0 ts mid mid_post)
    (hf : ∀ v, mid_post v → Parses (f v) deep mid rest post) :
    Parses (x >>= f) deep ts rest post := by
  have both := hx.bind hf
  rwa [Nat.zero_max] at both

/-- A rule, and one after it that enters no expression. -/
theorem bind_zero (hx : Parses x deep ts mid mid_post)
    (hf : ∀ v, mid_post v → Parses (f v) 0 mid rest post) : Parses (x >>= f) deep ts rest post := by
  have both := hx.bind hf
  rwa [Nat.max_zero] at both

theorem weaken {rule : Parse α} {post' : α → Prop} (h : Parses rule deep ts rest post)
    (hpost : ∀ v, post v → post' v) : Parses rule deep ts rest post' := by
  intro p hp hd
  obtain ⟨succeeds, fails⟩ := h p hp hd
  refine ⟨fun hle => ?_, fails⟩
  obtain ⟨v, q, hv, hq, hqd, hv'⟩ := succeeds hle
  exact ⟨v, q, hv, hq, hqd, hpost v hv'⟩

theorem nested {rule : Parse α} (h : Parses rule deep ts rest post) :
    Parses (nested rule) (deep + 1) ts rest post := by
  intro p hp hd
  unfold Grammar.nested
  by_cases hfull : maxDepth ≤ p.depth
  · rw [if_pos hfull]
    exact ⟨fun hle => by omega, fun _ => ⟨_, p, rfl, rfl⟩⟩
  · rw [if_neg hfull]
    have deeper : Sees { p with depth := p.depth + 1 } ts := hp
    obtain ⟨succeeds, fails⟩ := h _ deeper (by dsimp only; omega)
    refine ⟨fun hle => ?_, fun hlt => ?_⟩
    · obtain ⟨v, q, hv, hq, hqd, hpost⟩ := succeeds (by dsimp only; omega)
      refine ⟨v, { q with depth := q.depth - 1 }, by rw [hv], hq, ?_, hpost⟩
      dsimp only at hqd ⊢
      omega
    · obtain ⟨e, q, he, hcause⟩ := fails (by dsimp only; omega)
      exact ⟨e, { q with depth := q.depth - 1 }, by rw [he], hcause⟩

/-! ## The next token -/

theorem here {f : Span → Parse α} (h : ∀ span, Parses (f span) deep ts rest post) :
    Parses (here >>= f) deep ts rest post :=
  fun p hp hd => h p.token.span p hp hd

theorem token {f : Token → Parse α} (h : ∀ u, t.Alike u → Parses (f u) deep (t :: ts) rest post) :
    Parses (token >>= f) deep (t :: ts) rest post :=
  fun p hp hd => h p.token hp.alike p hp hd

theorem word {f : String → Parse α} (h : Parses (f t.word) deep (t :: ts) rest post) :
    Parses (word >>= f) deep (t :: ts) rest post := by
  intro p hp hd
  have run := h p hp hd
  rwa [hp.alike.word_eq] at run

theorem kind {f : TokenKind → Parse α} (h : Parses (f t.kind) deep (t :: ts) rest post) :
    Parses (kind >>= f) deep (t :: ts) rest post := by
  intro p hp hd
  have run := h p hp hd
  rwa [hp.alike.kind] at run

theorem advance {f : Unit → Parse α} (h : Parses (f ()) deep (u :: ts) rest post) :
    Parses (advance >>= f) deep (t :: u :: ts) rest post := by
  intro p hp hd
  obtain ⟨q, hq, hsees, hdepth⟩ := hp.advance
  have run : (Grammar.advance >>= f) p = f () q := by simp only [Bind.bind, EStateM.bind, hq]
  rw [run, ← hdepth]
  exact h q hsees (by omega)

theorem accept {f : Bool → Parse α} (ht : t.word = text)
    (h : Parses (f true) deep (u :: ts) rest post) :
    Parses (accept text >>= f) deep (t :: u :: ts) rest post := by
  unfold Grammar.accept
  simp only [bind_assoc]
  refine word ?_
  simp only [if_pos ht, bind_assoc, pure_bind]
  exact advance h

theorem refuse {f : Bool → Parse α} (ht : t.word ≠ text)
    (h : Parses (f false) deep (t :: ts) rest post) :
    Parses (Grammar.accept text >>= f) deep (t :: ts) rest post := by
  unfold Grammar.accept
  simp only [bind_assoc]
  refine word ?_
  simp only [if_neg ht, pure_bind]
  exact h

theorem expect {context : String} {f : Unit → Parse α} (ht : t.word = text)
    (h : Parses (f ()) deep (u :: ts) rest post) :
    Parses (expect text context >>= f) deep (t :: u :: ts) rest post := by
  unfold Grammar.expect
  simp only [bind_assoc]
  refine word ?_
  simp only [if_pos ht]
  exact advance h

theorem lineEnd {context : String} {f : Unit → Parse α} (ht : t.kind = .newline)
    (h : Parses (f ()) deep (u :: ts) rest post) :
    Parses (expectLineEnd context >>= f) deep (t :: u :: ts) rest post := by
  unfold expectLineEnd
  simp only [bind_assoc]
  refine kind ?_
  rw [ht]
  exact advance h

theorem ident {f : Ident → Parse α} (hk : t.kind = .ident) (ht : isKeyword t.text = false)
    (h : ∀ name : Ident, name.text = t.text → Parses (f name) deep (u :: ts) rest post) :
    Parses (ident >>= f) deep (t :: u :: ts) rest post := by
  unfold Grammar.ident
  simp only [bind_assoc]
  refine token fun v hv => ?_
  have text : t.text = v.text := hv.text (by rw [Token.isLayout, hk])
  have kind : v.kind = .ident := hv.kind ▸ hk
  simp only [kind, ne_eq, not_true_eq_false, if_false, ← text, ht, Bool.false_eq_true, bind_assoc,
    pure_bind]
  exact advance (h _ rfl)

/-! ## Sites -/

theorem exprSite {f : Site → Parse α} (h : ∀ site, Parses (f site) deep ts rest post) :
    Parses (exprSite start >>= f) deep ts rest post :=
  fun p hp hd => h _ { p with expressions := p.expressions + 1 } hp hd

theorem stmtSite {f : Site → Parse α} (h : ∀ site, Parses (f site) deep ts rest post) :
    Parses (stmtSite start >>= f) deep ts rest post :=
  fun p hp hd => h _ { p with statements := p.statements + 1 } hp hd

theorem spanSince {f : Span → Parse α} (h : ∀ span, Parses (f span) deep ts rest post) :
    Parses (spanSince start >>= f) deep ts rest post :=
  fun p hp hd => h _ p hp hd

/-! ## Repetition -/

theorem repeated_some {rule : β → Parse (Option β)} {v : β} {good : β → Prop} {post : β → Prop}
    (hb : 0 < bound) (h : Parses (rule v) deep ts mid fun o => ∃ w, o = some w ∧ good w)
    (hrest : ∀ w, good w → Parses (repeated rule (bound - 1) w) deep' mid rest post) :
    Parses (repeated rule bound v) (max deep deep') ts rest post := by
  obtain ⟨n, rfl⟩ : ∃ n, bound = n + 1 := ⟨bound - 1, by omega⟩
  rw [repeated]
  refine h.bind fun o ho => ?_
  obtain ⟨w, rfl, hw⟩ := ho
  exact hrest w hw

theorem repeated_none {rule : β → Parse (Option β)} {v : β} (hb : 0 < bound)
    (h : Parses (rule v) 0 ts ts (· = none)) : Parses (repeated rule bound v) 0 ts ts (· = v) := by
  obtain ⟨n, rfl⟩ : ∃ n, bound = n + 1 := ⟨bound - 1, by omega⟩
  rw [repeated]
  refine h.zero_bind fun o ho => ?_
  subst ho
  exact pure rfl

theorem many_some {rule : Parse (Option β)} (good : β → Prop) {post : List β → Prop}
    (hb : 0 < bound) (h : Parses rule deep ts mid fun o => ∃ w, o = some w ∧ good w)
    (hrest : Parses (many rule (bound - 1)) deep' mid rest fun vs => ∀ w, good w → post (w :: vs)) :
    Parses (many rule bound) (max deep deep') ts rest post := by
  obtain ⟨n, rfl⟩ : ∃ n, bound = n + 1 := ⟨bound - 1, by omega⟩
  rw [many]
  refine h.bind fun o ho => ?_
  obtain ⟨w, rfl, hw⟩ := ho
  exact hrest.bind_zero fun vs hvs => pure (hvs w hw)

theorem many_none {rule : Parse (Option β)} (hb : 0 < bound) (h : Parses rule 0 ts ts (· = none)) :
    Parses (many rule bound) 0 ts ts (· = []) := by
  obtain ⟨n, rfl⟩ : ∃ n, bound = n + 1 := ⟨bound - 1, by omega⟩
  rw [many]
  refine h.zero_bind fun o ho => ?_
  subst ho
  exact pure rfl

end Parses

end SdkUsage.Grammar
