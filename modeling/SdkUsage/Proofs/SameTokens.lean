/-
Only tokens matter: of two sources with the same tokens both are parsed or none is, into
modules that are equal up to spans, and the analysis of both gives the same. So comments, blank
lines, spacing and the joining of lines have no influence on the result.
-/
import SdkUsage.Proofs.EntryPoint.Recast
import SdkUsage.Proofs.Grammar.Follow.Statement
import SdkUsage.Proofs.Grammar.Settled
import SdkUsage.Proofs.Inference.Bare

namespace SdkUsage

open SdkUsage.Tree

variable {p : Parser} {ts us : List Token} {m : Module} {source : Source} {k b : Nat}

namespace Grammar

/-! ## The parser at the start -/

/-- A parser at the start of a source, with one that is about to pass the same tokens. -/
theorem Together.of_start {fresh : Bool} {c : Course} {q : Parser} {last : Lexer}
    (hp : Parser.start source = .ok p) (hts : p.lexer.Gives ts c.final)
    (hus : q.lexer.Gives us last) (ha : Ahead c.rest fresh 0 (p.token :: ts) (q.token :: us))
    (hd : q.depth = 0) (he : q.expressions = c.shift.exprs) (hs : q.statements = c.shift.stmts) :
    Together fresh c ⟨0, 0, 0⟩ p q := by
  obtain ⟨t, l, hn, rfl⟩ := Parser.start_ok hp
  obtain ⟨quiet, plain, brackets, -⟩ := Lexer.next_fair (Lexer.start_quiet source) hn
  exact ⟨⟨ts, us, hts, ⟨last, hus⟩, ha⟩, quiet, plain, brackets, rfl, hd,
    he.trans (Nat.zero_add _).symm, hs.trans (Nat.zero_add _).symm⟩

/-- What comes after a token of a source up to the end token. -/
theorem length_le_remaining {t : Token} {l last : Lexer} (hl : l.Quiet) (ht : l.Gives ts last)
    (he : Lexer.Ended (t :: ts)) : ts.length ≤ l.remaining + 1 := by
  cases he with
  | last => exact Nat.zero_le _
  | cons _ he =>
    have := ht.length_le hl he
    have := l.left_le_remaining
    omega

theorem groups_agree (hq : p.lexer.Quiet) {k' b' : Nat} (hk : p.budget ≤ k) (hk' : p.budget ≤ k')
    (hb : p.budget ≤ b) (hb' : p.budget ≤ b') :
    many ((rules k).group? endsText) b p = many ((rules k').group? endsText) b' p ∧
      Proceeds p (fun _ => Within (p.left + 1)) (many ((rules k).group? endsText) b p) := by
  have enough := p.left_lt_budget
  have tracked : Nesting.Tracked False (rules k) (rules k') (p.left + 1) :=
    statements_tracked (by omega) (by omega)
  have groups := Nesting.group_reads tracked endsText
  exact (groups.many (by omega) (by omega)).agrees (Nat.le_refl _) ⟨hq, Nat.lt_succ_self _⟩

/-- The groups of statements of a text do not depend on bounds that are large enough. -/
theorem groups_bounded (hq : p.lexer.Quiet) {k' b' : Nat} (hk : p.budget ≤ k) (hk' : p.budget ≤ k')
    (hb : p.budget ≤ b) (hb' : p.budget ≤ b') :
    many ((rules k).group? endsText) b p = many ((rules k').group? endsText) b' p :=
  (groups_agree hq hk hk' hb hb').1

theorem parse_eq (hp : Parser.start source = .ok p) :
    parse source = match (rules p.budget).stmtsUntil endsText p with
      | .ok body p' => .ok ⟨body, p'.expressions, p'.statements⟩
      | .error e _ => .error e := by
  unfold parse moduleRule
  simp only [hp, Bind.bind, EStateM.bind]
  cases (rules p.budget).stmtsUntil endsText p <;> rfl

/-- **A source that is parsed is a sequence of groups of statements up to the end,** whatever
bounds are taken, if they are large enough. -/
theorem parse_ok_iff (hp : Parser.start source = .ok p) (hk : p.budget ≤ k) (hb : p.budget ≤ b) :
    parse source = .ok m ↔ ∃ vs p', many ((rules k).group? endsText) b p = .ok vs p' ∧
      m = ⟨vs.flatten, p'.expressions, p'.statements⟩ := by
  have groups : (rules p.budget).stmtsUntil endsText p =
      match many ((rules p.budget).group? endsText) p.budget p with
      | .ok vs p' => .ok vs.flatten p'
      | .error e p' => .error e p' := by
    change EStateM.bind (many ((rules p.budget).group? endsText) p.budget) _ p = _
    unfold EStateM.bind
    cases many ((rules p.budget).group? endsText) p.budget p <;> rfl
  rw [groups_bounded (Parser.start_lexer_quiet hp) hk (Nat.le_refl _) hb (Nat.le_refl _),
    parse_eq hp, groups]
  cases many ((rules p.budget).group? endsText) p.budget p with
  | error => simp
  | ok vs p' =>
    constructor
    · intro h
      cases h
      exact ⟨vs, p', rfl, rfl⟩
    · rintro ⟨_, _, ⟨⟩, rfl⟩
      rfl

end Grammar

/-! ## The same tokens -/

open Grammar in
/-- Tokens that look the same to the grammar, where both texts end together. -/
theorem Grammar.Ahead.of_alike {fresh : Bool} {level : Nat} (he : Lexer.Ended ts)
    (h : List.Forall₂ Token.Alike ts us) : Ahead none fresh level ts us := by
  induction h generalizing fresh level with
  | nil => cases he
  | @cons t u ts us htu hrest ih =>
    cases he with
    | last ht =>
      cases hrest
      exact .eof rfl ht (htu.kind ▸ ht)
    | cons hk he =>
      cases ht : t.kind with
      | eof => exact absurd ht hk
      | newline => exact .newline ht (htu.kind ▸ ht) (ih he)
      | indent => exact .indent ht (htu.kind ▸ ht) (ih he)
      | dedent => exact .dedent ht (htu.kind ▸ ht) (ih he)
      | symbol | string | number | ident =>
        exact .written (by rw [Token.isLayout, ht]) htu (ih he)

theorem endsText_placeless : Grammar.Placeless Grammar.endsText := by
  intro t u h
  unfold Grammar.endsText
  rw [h.kind]

open Grammar in
/-- A source is parsed if one with the same tokens is, and the modules are equal up to spans. -/
theorem parse_of_alike {a b : Source} (ha : a.Lexes ts) (hb : b.Lexes us)
    (h : List.Forall₂ Token.Alike ts us) (hm : parse a = .ok m) :
    ∃ m', parse b = .ok m' ∧ m.bare = m'.bare := by
  obtain ⟨hend, final, hts⟩ := ha
  obtain ⟨hend', last, hus⟩ := hb
  cases h with
  | nil => cases hend
  | @cons t u ts us htu hrest =>
    obtain ⟨l, hn, hts⟩ := hts.uncons
    obtain ⟨l', hn', hus⟩ := hus.uncons
    have hp := Parser.start_of_next hn
    have hq := Parser.start_of_next hn'
    have ahead : Ahead none false 0 (t :: ts) (u :: us) := .of_alike hend (.cons htu hrest)
    have together : InStep ⟨{}, none, final⟩ ⟨0, 0, 0⟩ ⟨l, t, 0, 0, 0, 0⟩ ⟨l', u, 0, 0, 0, 0⟩ :=
      .of_start hp hts hus ahead rfl rfl rfl
    -- A bound that is large enough for both.
    let bound := max (Parser.budget ⟨l, t, 0, 0, 0, 0⟩) (Parser.budget ⟨l', u, 0, 0, 0, 0⟩)
    obtain ⟨vs, p', hrun, rfl⟩ :=
      (parse_ok_iff hp (k := bound) (b := bound) (Nat.le_max_left ..) (Nat.le_max_left ..)).1 hm
    obtain ⟨ws, q', hrun', hbody, hafter⟩ := many_follows (Nesting.group_mirrors
      (statements_followed bound) endsText_placeless (.inr rfl)) bound together hrun
    refine ⟨_, (parse_ok_iff hq (k := bound) (b := bound) (Nat.le_max_right ..)
      (Nat.le_max_right ..)).2 ⟨ws, q', hrun', rfl⟩, ?_⟩
    have exprs : q'.expressions = p'.expressions := hafter.exprs
    have stmts : q'.statements = p'.statements := hafter.stmts
    rw [Module.bare, Module.bare, exprs, stmts, List.map_flatten, List.map_flatten]
    exact congrArg (Tree.Module.mk ·.flatten _ _) hbody

/-! ## The same analysis -/

/-- Modules that are equal up to spans are analyzed alike. -/
theorem Analysis.eq_of_recast {m' : Module} (h : m.recast {} = m'.recast {}) (config : Config) :
    (do return CallMap.collect (← infer config m).types m : Except AnalysisError CallMap) =
      (do return CallMap.collect (← infer config m').types m') := by
  have spanless (m : Module) : (do return CallMap.collect (← infer config m).types m :
      Except AnalysisError CallMap) =
        (do return CallMap.collect (← infer config (m.recast {})).types (m.recast {})) := by
    rw [infer_recast]
    cases infer config m with
    | error => rfl
    | ok state => exact congrArg Except.ok (CallMap.collect_recast state.types m).symm
  rw [spanless m, spanless m', h]

theorem analyze_eq_of_bare {a b : Source} {m' : Module} (ha : parse a = .ok m)
    (hb : parse b = .ok m') (h : m.bare = m'.bare) (config : Config) (application : Bool) :
    analyze config application a = analyze config application b := by
  have spanless : m.recast {} = m'.recast {} := by
    rw [← Module.recast_bare, h, Module.recast_bare]
  unfold analyze Analysis.parse
  rw [ha, hb]
  cases application with
  | false => exact Analysis.eq_of_recast spanless config
  | true =>
    refine Analysis.eq_of_recast ?_ config
    rw [if_pos rfl, if_pos rfl, ← Module.invokeEntryPoints_recast,
      ← Module.invokeEntryPoints_recast, spanless]

/-- **Only tokens matter.** -/
theorem only_tokens_matter {a b : Source} {ts us : List Token} (ha : a.Lexes ts) (hb : b.Lexes us)
    (h : List.Forall₂ Token.Alike ts us) :
    (∃ e e', parse a = .error e ∧ parse b = .error e') ∨
      ∃ m m', parse a = .ok m ∧ parse b = .ok m' ∧ m.bare = m'.bare ∧
        ∀ config application, analyze config application a = analyze config application b := by
  cases hpa : parse a with
  | ok m =>
    obtain ⟨m', hpb, hm⟩ := parse_of_alike ha hb h hpa
    exact .inr ⟨m, m', rfl, hpb, hm, analyze_eq_of_bare hpa hpb hm⟩
  | error e =>
    cases hpb : parse b with
    | error e' => exact .inl ⟨e, e', rfl, rfl⟩
    | ok m' =>
      have h' : List.Forall₂ Token.Alike us ts := h.flip.imp fun _ _ => Token.Alike.symm
      obtain ⟨m, hpa', -⟩ := parse_of_alike hb ha h' hpb
      cases hpa.symm.trans hpa'

/-- A program with comments, blank lines, joined lines and tabs. -/
def spacedOut : Source where
  file := "main.py"
  text := "# Calls.\n\nimport   boto3 # clients\nif x :\n\tboto3.client('s3') \\\n.m( 1,\n  2\n)\n"

/-- The same program in few characters. -/
def closeSet : Source where
  file := "app.py"
  text := "import boto3\nif x:\n boto3.client('s3').m(1,2)"

theorem spacedOut_analyzed_alike : ∃ ts us, spacedOut.Lexes ts ∧ closeSet.Lexes us ∧
    List.Forall₂ Token.Alike ts us ∧ ts.length = 24 ∧
      ∃ m m', parse spacedOut = .ok m ∧ parse closeSet = .ok m' ∧ m.bare = m'.bare ∧
        ∀ config application,
          analyze config application spacedOut = analyze config application closeSet := by
  have same : (do
      let ts ← (Lexer.start spacedOut).tokens? 30
      let us ← (Lexer.start closeSet).tokens? 30
      return decide (List.Forall₂ Token.Alike ts us ∧ ts.length = 24)) = some true := by
    decide +kernel
  have parses : (parse closeSet).toOption.isSome = true := by decide +kernel
  cases hts : (Lexer.start spacedOut).tokens? 30 with
  | none => rw [hts] at same; cases same
  | some ts =>
    cases hus : (Lexer.start closeSet).tokens? 30 with
    | none => rw [hts, hus] at same; cases same
    | some us =>
      rw [hts, hus] at same
      obtain ⟨alike, length⟩ := of_decide_eq_true (Option.some.inj same)
      have hlexes : spacedOut.Lexes ts := Lexer.gives_of_tokens hts
      have hlexes' : closeSet.Lexes us := Lexer.gives_of_tokens hus
      refine ⟨ts, us, hlexes, hlexes', alike, length, ?_⟩
      rcases only_tokens_matter hlexes hlexes' alike with ⟨_, _, _, failed⟩ | found
      · rw [failed] at parses
        cases parses
      · exact found

end SdkUsage
