/-
What is true while a source is read. `Read source start passed nodes` says it of
where the given nodes were built since `start`.

Their numbers come from the stretch of the supply that was used up: a parser
counts the expressions and statements it has built, and a new node gets the
count as its number. Statements are never dropped, so that their numbers are
exactly that stretch; an expression may be (the name of a keyword argument is
read as an expression first), so that theirs are a part of it.

Their spans lie between the token at `start` and the last one that was passed,
statements in the order in which they were built. A node ends with the last
token passed, so that one can be built only once a token was passed since its
start, which `passed` tells.

Two rules, which may come back to others with different bounds, are followed at once.
`Takes watch n span passed given next x y gain` says that they start at `span` with nodes in
hand, fewer than `n` tokens to come, do the same and put the nodes into a value of which
`gain` tells; no bound is used up, and where `watch` holds an error is located. Rules are
walked through with `Reads.bind` where nodes or tokens are read, with `Reads.past` where a
token was passed, so that there is one less to come, and with `Takes.exprNode` or
`Takes.stmtNode` where a new node takes up what is in hand.
-/
import SdkUsage.Proofs.Grammar.Progress
import SdkUsage.Proofs.Grammar.Rule
import SdkUsage.Proofs.Tree.Numbering
import SdkUsage.Proofs.Tree.Spans

namespace SdkUsage

/-! ## Reading a source -/

/-- A lexer that reads a source. -/
structure Lexer.Sound (source : Source) (lexer : Lexer) : Prop where
  located : lexer.Located source.readChars
  settled : lexer.Settled
  quiet : lexer.Quiet

theorem Lexer.Sound.start (source : Source) : (Lexer.start source).Sound source where
  located := ⟨.start source, by rintro _ ⟨⟩⟩
  settled := settled_of_pending rfl
  quiet := start_quiet source

/-- The next token stands in the source, behind what was read before it. -/
theorem Lexer.Sound.next {source : Source} {lexer after : Lexer} {t : Token}
    (h : lexer.Sound source) (heq : lexer.next = (.ok t, after)) :
    after.Sound source ∧ t.span.Sound source ∧ t.Named ∧
      lexer.cursor.offset ≤ t.span.start ∧ t.span.stop = after.cursor.offset := by
  obtain ⟨span, located⟩ := (next_eq_ok_iff.1 heq).located h.located
  have fair := next_fair h.quiet heq
  obtain ⟨⟨middle, ⟨gap, hgap, -⟩, passes, hstart, hstop⟩, settled⟩ :=
    ((next_eq_ok_iff.1 heq).stands h.settled).imp_left Stands.place
  have start : lexer.cursor.offset ≤ t.span.start := by
    rw [hstart, hgap.offset]
    exact Nat.le_add_right _ _
  have stop : t.span.start ≤ t.span.stop := by
    rw [hstart, hstop, passes.offset]
    exact Nat.le_add_right _ _
  refine ⟨⟨located, settled, fair.quiet⟩, ⟨span, stop, ?_⟩, fair.named, start, hstop⟩
  rw [hstop]
  exact located.cursor.boundary

namespace Grammar

open SdkUsage.Tree

/-- A parser that reads a source. -/
structure Parser.Sound (source : Source) (parser : Parser) : Prop where
  lexer : parser.lexer.Sound source
  span : parser.token.span.Sound source
  named : parser.token.Named
  ahead : parser.token.span.stop ≤ parser.lexer.cursor.offset
  stop : Text.Boundary source.chars parser.stop
  behind : parser.stop ≤ parser.token.span.start

/-- The nodes stand between `start` and where the parser is. -/
structure Laid (source : Source) (start : Parser) (passed : Bool) (nodes : List Node)
    (parser : Parser) : Prop where
  first : start.Sound source
  sound : parser.Sound source
  later : start.stop ≤ parser.stop
  ahead : start.token.span.start ≤ parser.token.span.start
  passed : passed = true → start.token.span.start ≤ parser.stop
  below : ∀ n ∈ nodes.flatMap Node.preorder, n.Starless ∧ n.Fits source
  within : ∀ n ∈ nodes, start.token.span.start ≤ n.span.start ∧ n.span.stop ≤ parser.stop
  ordered : (stmtsOf nodes).Pairwise Stmt.Before

/-- The nodes were built since `start`. -/
structure Read (source : Source) (start : Parser) (passed : Bool) (nodes : List Node)
    (parser : Parser) : Prop extends Laid source start passed nodes parser where
  exprs : ∃ n, parser.expressions = start.expressions + n ∧
    (exprNumbers nodes).Subperm (List.range' start.expressions n)
  stmts : ∃ n, parser.statements = start.statements + n ∧
    (stmtNumbers nodes).Perm (List.range' start.statements n)

/-- What was given can be put together to what is taken: statements all of
them in their order, expressions some of them. -/
structure Covers (given taken : List Node) : Prop where
  exprs : (exprNumbers taken).Subperm (exprNumbers given)
  stmts : (stmtNumbers taken).Perm (stmtNumbers given)
  below : ∀ n ∈ taken.flatMap Node.preorder, n ∈ given.flatMap Node.preorder
  order : (stmtsOf taken).Sublist (stmtsOf given)

namespace Covers

theorem refl (nodes : List Node) : Covers nodes nodes := ⟨.refl _, .refl _, fun _ h => h, .refl _⟩

/-- Of expressions any may be dropped. -/
theorem of_exprs {given taken : List Expr} (h : taken.Subperm given) :
    Covers (exprNodes given) (exprNodes taken) where
  exprs := by
    obtain ⟨es, hp, hs⟩ := h
    exact exprNumbers_subperm ⟨exprNodes es, hp.map _, hs.map _⟩
  stmts := by simp
  below := fun n hn => by
    obtain ⟨m, hm, hn⟩ := List.mem_flatMap.1 hn
    obtain ⟨e, he, rfl⟩ := mem_exprNodes.1 hm
    exact List.mem_flatMap.2 ⟨_, mem_exprNodes.2 ⟨e, h.subset he, rfl⟩, hn⟩
  order := by simp

/-- An expression may be replaced by its parts. -/
theorem children (e : Expr) : Covers [.expr e] (exprNodes e.children) where
  exprs := by
    rw [exprNumbers_expr]
    exact (List.sublist_cons_self _ _).subperm
  stmts := by simp
  below := fun n hn => by
    obtain ⟨m, hm, hn⟩ := List.mem_flatMap.1 hn
    have hc : m ∈ (Node.expr e).children := hm
    exact List.mem_flatMap.2
      ⟨_, List.mem_singleton.2 rfl, Node.mem_preorder_of_mem_children hc hn⟩
  order := by simp

theorem append {given taken : List Node} (h : Covers given taken) (more : List Node) :
    Covers (given ++ more) (taken ++ more) where
  exprs := by
    rw [exprNumbers_append, exprNumbers_append]
    exact h.exprs.append (.refl _)
  stmts := by
    rw [stmtNumbers_append, stmtNumbers_append]
    exact h.stmts.append_right _
  below := fun n hn => by
    rw [List.flatMap_append, List.mem_append] at hn ⊢
    exact hn.imp_left (h.below n)
  order := by
    rw [stmtsOf_append, stmtsOf_append]
    exact h.order.append (.refl _)

end Covers

namespace Laid

variable {source : Source} {start parser : Parser} {b b' : Bool} {nodes : List Node}

theorem nil (h : parser.Sound source) : Laid source parser false [] parser where
  first := h
  sound := h
  later := Nat.le_refl _
  ahead := Nat.le_refl _
  passed := nofun
  below := nofun
  within := nofun
  ordered := .nil

/-- What comes later stands behind what came before. -/
theorem append {middle : Parser} {more : List Node} (h : Laid source start b nodes middle)
    (h' : Laid source middle b' more parser) :
    Laid source start (b' || b) (nodes ++ more) parser where
  first := h.first
  sound := h'.sound
  later := Nat.le_trans h.later h'.later
  ahead := Nat.le_trans h.ahead h'.ahead
  passed := fun hb => by
    rcases Bool.or_eq_true_iff.1 hb with hb | hb
    · exact Nat.le_trans h.ahead (h'.passed hb)
    · exact Nat.le_trans (h.passed hb) h'.later
  below := fun n hn => by
    rw [List.flatMap_append, List.mem_append] at hn
    exact hn.elim (h.below n) (h'.below n)
  within := fun n hn => by
    rcases List.mem_append.1 hn with hn | hn
    · exact (h.within n hn).imp_right fun hs => Nat.le_trans hs h'.later
    · exact (h'.within n hn).imp_left fun hs => Nat.le_trans h.ahead hs
  ordered := by
    rw [stmtsOf_append, List.pairwise_append]
    refine ⟨h.ordered, h'.ordered, fun t ht u hu => ?_⟩
    have before := (h.within _ (mem_of_mem_stmtsOf ht)).2
    have behind := (h'.within _ (mem_of_mem_stmtsOf hu)).1
    exact Nat.le_trans before (Nat.le_trans h.sound.behind behind)

theorem cover {taken : List Node} (h : Laid source start b nodes parser) (hc : Covers nodes taken) :
    Laid source start b taken parser where
  first := h.first
  sound := h.sound
  later := h.later
  ahead := h.ahead
  passed := h.passed
  below := fun n hn => h.below n (hc.below n hn)
  within := fun n hn => by
    obtain ⟨m, hm, hn⟩ :=
      List.mem_flatMap.1 (hc.below n (List.mem_flatMap.2 ⟨n, hn, n.mem_preorder_self⟩))
    obtain ⟨hstart, hstop⟩ := h.within m hm
    obtain ⟨hstart', hstop'⟩ :=
      Node.Fits.inside (fun k hk => (h.below k (List.mem_flatMap.2 ⟨m, hm, hk⟩)).2) hn
    exact ⟨Nat.le_trans hstart hstart', Nat.le_trans hstop' hstop⟩
  ordered := h.ordered.sublist hc.order

/-- A new node reaches from the start to the last token passed. -/
theorem node {node : Node} (h : Laid source start true nodes parser)
    (hc : Covers nodes node.children) (hn : node.Starless)
    (hs : node.span =
      { start.token.span with stop := max parser.stop start.token.span.start }) :
    Laid source start true [node] parser := by
  have taken := h.cover hc
  have stop : node.span.stop = parser.stop := by
    rw [hs]
    exact Nat.max_eq_left (h.passed rfl)
  have begins : node.span.start = start.token.span.start := by rw [hs]
  have fits : node.Fits source := by
    refine ⟨⟨?_, ?_, stop ▸ h.sound.stop⟩, fun child hchild => ?_, fun block hb => ?_⟩
    · rw [hs]
      exact h.first.span.located
    · rw [stop, begins]
      exact h.passed rfl
    · rw [stop, begins]
      exact taken.within child hchild
    · cases node with
      | stmt t => exact taken.ordered.sublist (Stmt.sublist_of_mem_blocks hb)
      | expr e => cases hb
  refine { h with below := ?_, within := ?_, ordered := ?_ }
  · intro n hmem
    simp only [List.flatMap_cons, List.flatMap_nil, List.append_nil] at hmem
    rcases Node.mem_preorder_cases hmem with rfl | ⟨c, hc, hmem⟩
    · exact ⟨hn, fits⟩
    · exact taken.below n (List.mem_flatMap.2 ⟨c, hc, hmem⟩)
  · intro n hmem
    cases List.mem_singleton.1 hmem
    exact ⟨Nat.le_of_eq begins.symm, Nat.le_of_eq stop⟩
  · cases node with
    | stmt t => exact List.pairwise_singleton _ t
    | expr e => exact .nil

/-- What was built does not depend on the counts. -/
theorem count (h : Laid source start b nodes parser) (expressions statements depth : Nat) :
    Laid source start b nodes { parser with expressions, statements, depth } :=
  { h with sound := { h.sound with } }

theorem weaken (h : Laid source start b nodes parser) (hb : b' = true → b = true) :
    Laid source start b' nodes parser :=
  { h with passed := fun hp => h.passed (hb hp) }

end Laid

/-! ## The stretch that was used -/

namespace Read

variable {source : Source} {start parser : Parser} {b b' : Bool} {nodes : List Node}

theorem nil (h : parser.Sound source) : Read source parser false [] parser where
  toLaid := .nil h
  exprs := ⟨0, rfl, .refl _⟩
  stmts := ⟨0, rfl, .refl _⟩

/-- Stretches that follow one another are one stretch. -/
theorem append {middle : Parser} {more : List Node} (h : Read source start b nodes middle)
    (h' : Read source middle b' more parser) :
    Read source start (b' || b) (nodes ++ more) parser := by
  obtain ⟨n, hn, hs⟩ := h.exprs
  obtain ⟨k, hk, hs'⟩ := h'.exprs
  obtain ⟨n', hn', hp⟩ := h.stmts
  obtain ⟨k', hk', hp'⟩ := h'.stmts
  refine ⟨h.toLaid.append h'.toLaid, ⟨n + k, by omega, ?_⟩, ⟨n' + k', by omega, ?_⟩⟩
  · rw [exprNumbers_append, ← List.range'_append_1, ← hn]
    exact hs.append hs'
  · rw [stmtNumbers_append, ← List.range'_append_1, ← hn']
    exact hp.append hp'

theorem cover {taken : List Node} (h : Read source start b nodes parser)
    (hc : Covers nodes taken) : Read source start b taken parser := by
  obtain ⟨n, hn, hs⟩ := h.exprs
  obtain ⟨k, hk, hp⟩ := h.stmts
  exact ⟨h.toLaid.cover hc, ⟨n, hn, hc.exprs.trans hs⟩, ⟨k, hk, hc.stmts.trans hp⟩⟩

theorem weaken (h : Read source start b nodes parser) (hb : b' = true → b = true) :
    Read source start b' nodes parser :=
  ⟨h.toLaid.weaken hb, h.exprs, h.stmts⟩

theorem depth (h : Read source start b nodes parser) (n : Nat) :
    Read source start b nodes { parser with depth := n } :=
  ⟨h.toLaid.count _ _ n, h.exprs, h.stmts⟩

/-- A new expression takes the next number. -/
theorem expr {e : Expr} (h : Read source start true nodes parser)
    (hi : e.index = parser.expressions)
    (hs : e.span = { start.token.span with stop := max parser.stop start.token.span.start })
    (hc : Covers nodes (exprNodes e.children)) (he : (Node.expr e).Starless) :
    Read source start true [.expr e] { parser with expressions := parser.expressions + 1 } := by
  have laid : Laid source start true [.expr e] parser := h.toLaid.node hc he hs
  obtain ⟨n, hn, hsub⟩ := (h.cover hc).exprs
  obtain ⟨k, hk, hperm⟩ := (h.cover hc).stmts
  refine ⟨laid.count _ _ _, ⟨n + 1, by dsimp only; omega, ?_⟩, ⟨k, hk, by simpa using hperm⟩⟩
  rw [exprNumbers_expr, List.range'_concat, hi, hn]
  have := (List.Subperm.refl [start.expressions + n]).append hsub
  simpa using this.trans List.perm_append_comm.subperm

/-- A new statement takes the next number. -/
theorem stmt {t : Stmt} (h : Read source start true nodes parser)
    (hi : t.index = parser.statements)
    (hs : t.span = { start.token.span with stop := max parser.stop start.token.span.start })
    (hc : Covers nodes t.children) (ht : (Node.stmt t).Starless) :
    Read source start true [.stmt t] { parser with statements := parser.statements + 1 } := by
  have laid : Laid source start true [.stmt t] parser := h.toLaid.node hc ht hs
  obtain ⟨n, hn, hsub⟩ := (h.cover hc).exprs
  obtain ⟨k, hk, hperm⟩ := (h.cover hc).stmts
  refine ⟨laid.count _ _ _, ⟨n, hn, by rwa [exprNumbers_stmt]⟩,
    ⟨k + 1, by dsimp only; omega, ?_⟩⟩
  rw [stmtNumbers_stmt, List.range'_concat, hi, hk]
  have := (List.Perm.refl [start.statements + k]).append hperm
  simpa using this.trans List.perm_append_comm

/-- Passing a token. -/
theorem advance {t : Token} {lexer : Lexer} (h : Read source start b nodes parser)
    (hn : parser.lexer.next = (.ok t, lexer)) :
    Read source start true nodes
      { parser with lexer, token := t, stop := parser.token.span.stop } := by
  obtain ⟨lexed, span, named, before, stop⟩ := h.sound.lexer.next hn
  have passed : parser.stop ≤ parser.token.span.stop :=
    Nat.le_trans h.sound.behind h.sound.span.ordered
  have behind := Nat.le_trans h.sound.ahead before
  have ahead := Nat.le_trans h.ahead h.sound.span.ordered
  refine ⟨⟨h.first, ⟨lexed, span, named, Nat.le_of_eq stop, h.sound.span.boundary, behind⟩,
    Nat.le_trans h.later passed, Nat.le_trans ahead behind, fun _ => ahead, h.below, ?_,
    h.ordered⟩, h.exprs, h.stmts⟩
  exact fun n hn => (h.within n hn).imp_right fun hs => Nat.le_trans hs passed

/-- Where the next token is refused, the error is located. -/
theorem located (h : Read source start b nodes parser) (cause : SyntaxError.Cause) :
    (SyntaxError.atSpan parser.token.span cause).Located source.readChars :=
  h.sound.span.located.atSpan cause

end Read

/-! ## Following two rules -/

/-- Since `mark` tokens were passed, at least one if `passed` holds, and where `watch` holds the
nodes were built since `start`. -/
structure Since (watch : Prop) (source : Source) (start mark : Parser) (passed : Bool)
    (nodes : List Node) (parser : Parser) : Prop where
  passes : ∃ ts, mark.Passes ts parser ∧ (passed = true → ts ≠ [])
  read : watch → Read source start passed nodes parser

/-- No bound is used up, and where `watch` holds the error is located. -/
def Refused (watch : Prop) (source : Source) (error : SyntaxError) : Prop :=
  error.cause ≠ .stalled ∧ (watch → error.Located source.readChars)

variable {α β : Type} {watch : Prop} {n : Nat} {span : Span} {b : Bool} {given : List Node}
  {next : Option Token} {t : Token}

namespace Since

variable {source : Source} {start mark p q : Parser} {b' : Bool} {nodes more : List Node}

theorem sound (h : Since watch source start mark b nodes p) (hw : watch) : p.Sound source :=
  (h.read hw).sound

theorem fresh (hs : watch → p.Sound source) : Since watch source p p false [] p :=
  ⟨⟨[], .nil rfl rfl, nofun⟩, fun hw => .nil (hs hw)⟩

theorem append (h : Since watch source start mark b nodes p)
    (h' : Since watch source p p b' more q) :
    Since watch source start mark (b' || b) (nodes ++ more) q := by
  obtain ⟨ts, first, moved⟩ := h.passes
  obtain ⟨us, second, moved'⟩ := h'.passes
  refine ⟨⟨ts ++ us, first.trans second, fun hb => ?_⟩, fun hw => (h.read hw).append (h'.read hw)⟩
  rw [ne_eq, List.append_eq_nil_iff, not_and_or]
  exact (Bool.or_eq_true_iff.1 hb).symm.imp moved moved'

theorem weaken (h : Since watch source start mark b nodes p) (hb : b' = true → b = true) :
    Since watch source start mark b' nodes p := by
  obtain ⟨ts, passes, moved⟩ := h.passes
  exact ⟨⟨ts, passes, fun hb' => moved (hb hb')⟩, fun hw => (h.read hw).weaken hb⟩

theorem within (h : Since watch source start mark b nodes p) (hm : Within n mark) :
    Within n p := by
  obtain ⟨ts, passes, -⟩ := h.passes
  exact (passes.within hm).mono (Nat.sub_le _ _)

/-- Where a token was passed, there is one less to come. -/
theorem within_past (h : Since watch source start mark true nodes p) (hm : Within (n + 1) mark) :
    Within n p := by
  obtain ⟨ts, passes, moved⟩ := h.passes
  have := List.length_pos_iff.2 (moved rfl)
  exact (passes.within hm).mono (by omega)

theorem depth (h : Since watch source start mark b nodes p) (d : Nat) :
    Since watch source start mark b nodes { p with depth := d } := by
  obtain ⟨ts, passes, moved⟩ := h.passes
  have same : p.Passes [] { p with depth := d } := .nil rfl rfl
  exact ⟨⟨ts, List.append_nil ts ▸ passes.trans same, moved⟩, fun hw => (h.read hw).depth d⟩

theorem refused (h : Since watch source start mark b nodes p) {cause : SyntaxError.Cause}
    (hc : cause ≠ .stalled) : Refused watch source (.atSpan p.token.span cause) :=
  ⟨hc, fun hw => (h.read hw).located cause⟩

/-- Passing a token that is not the end token. -/
theorem advance (h : Since watch source start mark b nodes p) (hk : p.token.kind ≠ .eof) :
    Delivers (fun _ => Since watch source start mark true nodes) (Refused watch source)
      (Grammar.advance p) := by
  cases hr : Grammar.advance p with
  | ok u q =>
    obtain ⟨ts, passes, -⟩ := h.passes
    have passed : p.Passes [p.token] q := .cons hk hr (.nil rfl rfl)
    obtain ⟨t, l, hn, rfl⟩ := Parser.advance_eq_ok hr
    exact ⟨⟨_, passes.trans passed, fun _ => by simp⟩, fun hw => (h.read hw).advance hn⟩
  | error error q =>
    unfold Grammar.advance at hr
    split at hr
    · cases hr
    · next hn =>
      cases hr
      refine ⟨Lexer.next_cause hn, fun hw => ?_⟩
      exact (h.sound hw).lexer.located.next_error hn

end Since

/-! ## What is said of rules -/

/-- What is said of the value of a rule: whether a token was passed for it, which nodes are in it,
and a fact about it. -/
structure Gain (α : Type) where
  passed : α → Bool
  nodes : α → List Node
  fact : α → Prop

namespace Gain

/-- Nodes, and no fact. -/
def of (passed : α → Bool) (nodes : α → List Node) : Gain α := ⟨passed, nodes, fun _ => True⟩

/-- Tokens only. -/
def tokens (passed : α → Bool) (fact : α → Prop) : Gain α := ⟨passed, fun _ => [], fact⟩

/-- An expression. -/
def expr : Gain Expr := of (fun _ => true) fun e => [.expr e]

/-- A statement. -/
def stmt : Gain Stmt := of (fun _ => true) fun t => [.stmt t]

/-- What is made of expressions. -/
def exprs (f : α → List Expr) : Gain α := of (fun _ => true) fun v => exprNodes (f v)

/-- A value for which a token was passed, or none. -/
def maybe (gain : Gain α) : Gain (Option α) where
  passed := Option.isSome
  nodes o := o.toList.flatMap gain.nodes
  fact o := ∀ v ∈ o, gain.fact v

/-- Values of one kind. -/
def each (passed : Bool) (gain : Gain α) : Gain (List α) where
  passed _ := passed
  nodes vs := vs.flatMap gain.nodes
  fact vs := ∀ v ∈ vs, gain.fact v

/-- It may be forgotten that a token was passed. -/
def lax (gain : Gain α) : Gain α := { gain with passed := fun _ => false }

/-- A value is as it is said. -/
def Holds (gain : Gain α) (watch : Prop) (source : Source) (start mark : Parser) (v : α)
    (p : Parser) : Prop :=
  Since watch source start mark (gain.passed v) (gain.nodes v) p ∧ (watch → gain.fact v)

end Gain

/-- Two rules start with nodes in hand, do the same, and put them, and what they read, into their
value. They have fewer than `n` tokens to come, and `next` comes first if it is given. -/
def Takes (watch : Prop) (n : Nat) (span : Span) (b : Bool) (given : List Node)
    (next : Option Token) (x y : Parse α) (gain : Gain α) : Prop :=
  ∀ (source : Source) (start mark : Parser), start.token.span = span → Within n mark →
    Leads (fun p => Since watch source start mark b given p ∧ ∀ t ∈ next, p.token = t) x y
      (gain.Holds watch source start mark) (Refused watch source)

/-- Two rules do the same and read the nodes of their value. -/
def Reads (watch : Prop) (n : Nat) (x y : Parse α) (gain : Gain α) : Prop :=
  ∀ ⦃source p⦄, Within n p → (watch → p.Sound source) →
    x p = y p ∧ Delivers (gain.Holds watch source p p) (Refused watch source) (x p)

/-- Two rules read an expression. -/
abbrev ReadsExpr (watch : Prop) (n : Nat) (x y : Parse Expr) : Prop := Reads watch n x y .expr

/-- Two rules read a statement. -/
abbrev ReadsStmt (watch : Prop) (n : Nat) (x y : Parse Stmt) : Prop := Reads watch n x y .stmt

variable {gain : Gain α} {x y : Parse α} {f f' : β → Parse α} {text : String} {first : Gain β}
  {v : α} {cause : SyntaxError.Cause} {c c' : Nat}

/-! ## One rule after another -/

theorem Takes.delivers {x y : Parse α} {source : Source} {p : Parser}
    (h : Takes watch n t.span false [] (some t) x y gain) (hp : Within n p) (ht : p.token = t)
    (hs : watch → p.Sound source) :
    x p = y p ∧ Delivers (gain.Holds watch source p p) (Refused watch source) (x p) := by
  refine h source p p (by rw [ht]) hp ⟨.fresh hs, ?_⟩
  rintro _ ⟨⟩
  exact ht

/-- A rule starts where the next token is. -/
theorem Reads.on (h : ∀ t : Token, Takes watch n t.span false [] (some t) x y gain) :
    Reads watch n x y gain :=
  fun _ _ hp hs => (h _).delivers hp rfl hs

/-- Fewer tokens may be to come. -/
theorem Reads.back (h : Reads watch (n + 1) x y gain) : Reads watch n x y gain :=
  fun _ _ hp hs => h (hp.mono (Nat.le_succ n)) hs

/-- The nodes of a value may be told in another way, and what else is known be forgotten. -/
theorem Reads.nodes {nodes : α → List Node} (h : Reads watch n x y gain)
    (heq : ∀ v, gain.nodes v = nodes v) : Reads watch n x y (.of gain.passed nodes) := by
  cases funext heq
  intro source p hp hs
  obtain ⟨same, delivers⟩ := h hp hs
  refine ⟨same, ?_⟩
  cases hr : x p with
  | ok v q =>
    rw [hr] at delivers
    exact ⟨delivers.1, fun _ => trivial⟩
  | error error q =>
    rw [hr] at delivers
    exact delivers

theorem Takes.bind {x y : Parse β} (hx : Takes watch n span b given next x y first)
    (hf : ∀ v, (watch → first.fact v) →
      Takes watch n span (first.passed v) (first.nodes v) none (f v) (f' v) gain) :
    Takes watch n span b given next (x >>= f) (y >>= f') gain :=
  fun source start mark hs hm => (hx source start mark hs hm).bind fun v _ hv =>
    hf v hv.2 source start mark hs hm ⟨hv.1, nofun⟩

/-- What a rule reads is added to what is in hand. -/
theorem Reads.bind_of {x y : Parse β} {m : Nat} (hx : Reads watch m x y first)
    (hm : ∀ {source start mark p}, Since watch source start mark b given p → Within n mark →
      Within m p) (hf : ∀ v, (watch → first.fact v) → Takes watch n span (first.passed v || b)
      (given ++ first.nodes v) none (f v) (f' v) gain) :
    Takes watch n span b given next (x >>= f) (y >>= f') gain := by
  intro source start mark hs hmark
  have run : Leads (fun p => Since watch source start mark b given p ∧ ∀ t ∈ next, p.token = t) x y
      (fun v q => Since watch source start mark (first.passed v || b) (given ++ first.nodes v) q ∧
        (watch → first.fact v)) (Refused watch source) := by
    rintro p ⟨hp, -⟩
    obtain ⟨same, delivers⟩ := hx (hm hp hmark) hp.sound
    refine ⟨same, ?_⟩
    cases hr : x p with
    | ok v q =>
      rw [hr] at delivers
      exact ⟨hp.append delivers.1, delivers.2⟩
    | error error q =>
      rw [hr] at delivers
      exact delivers
  exact run.bind fun v _ hv => hf v hv.2 source start mark hs hmark ⟨hv.1, nofun⟩

theorem Reads.bind {x y : Parse β} (hx : Reads watch n x y first)
    (hf : ∀ v, (watch → first.fact v) → Takes watch n span (first.passed v || b)
      (given ++ first.nodes v) none (f v) (f' v) gain) :
    Takes watch n span b given next (x >>= f) (y >>= f') gain :=
  hx.bind_of Since.within hf

/-- After a token, a rule is enough that is known for one token less. -/
theorem Reads.past {x y : Parse β} (hx : Reads watch n x y first)
    (hf : ∀ v, (watch → first.fact v) → Takes watch (n + 1) span (first.passed v || true)
      (given ++ first.nodes v) none (f v) (f' v) gain) :
    Takes watch (n + 1) span true given next (x >>= f) (y >>= f') gain :=
  hx.bind_of Since.within_past hf

/-! ## Values -/

theorem Takes.pure (hb : (gain.passed v && !b) = false) (hc : Covers given (gain.nodes v))
    (hf : watch → gain.fact v) : Takes watch n span b given next (pure v) (pure v) gain := by
  rintro source start mark - - p ⟨hp, -⟩
  have flag : gain.passed v = true → b = true := fun hv => by simpa [hv] using hb
  have weak := hp.weaken flag
  exact ⟨rfl, ⟨weak.passes, fun hw => (weak.read hw).cover hc⟩, hf⟩

/-- The nodes of the value are those in hand. -/
theorem Takes.done {passed : α → Bool} {nodes : α → List Node} (hb : (passed v && !b) = false)
    (h : given = nodes v) :
    Takes watch n span b given next (Pure.pure v) (Pure.pure v) (.of passed nodes) :=
  .pure hb (h ▸ .refl _) fun _ => trivial

theorem Takes.found (h : given = gain.nodes v) (hf : watch → gain.fact v) :
    Takes watch n span true given next (Pure.pure (some v)) (Pure.pure (some v)) gain.maybe := by
  refine .pure rfl ?_ fun hw _ hv => ?_
  · rw [h, show gain.maybe.nodes (some v) = gain.nodes v from List.append_nil _]
    exact .refl _
  · cases hv
    exact hf hw

theorem Takes.nothing :
    Takes watch n span b [] next (Pure.pure none) (Pure.pure none) gain.maybe :=
  .pure rfl (.refl _) fun _ _ hv => by cases hv

theorem Takes.lax (h : Takes watch n span b given next x y gain) :
    Takes watch n span b given next x y gain.lax :=
  fun source start mark hs hm => (h source start mark hs hm).weaken (fun _ hp => hp)
    fun _ _ hv => ⟨hv.1.weaken nofun, hv.2⟩

/-- A rule whose value is the value of the whole. -/
theorem Reads.takes (h : Reads watch n x y gain) : Takes watch n span b [] next x y gain := by
  rw [← bind_pure x, ← bind_pure y]
  refine h.bind fun v hv => .pure ?_ (.refl _) hv
  cases gain.passed v <;> rfl

/-- A rule whose value is the value of the whole, after a token. -/
theorem Reads.takes_past (h : Reads watch n x y gain) :
    Takes watch (n + 1) span true [] next x y gain := by
  rw [← bind_pure x, ← bind_pure y]
  exact h.past fun v hv => .pure (by simp) (.refl _) hv

/-! ## Errors -/

theorem Takes.fail (hc : cause ≠ .stalled) :
    Takes watch n span b given next (fail cause) (Grammar.fail cause) gain := by
  rintro source start mark - - p ⟨hp, -⟩
  exact ⟨rfl, hp.refused hc⟩

/-- A rule may refuse what it started with. -/
theorem Takes.failAt (hc : cause ≠ .stalled) :
    Takes watch n span b given next (failAt span cause) (Grammar.failAt span cause) gain := by
  rintro source start mark rfl - p ⟨hp, -⟩
  exact ⟨rfl, hc, fun hw => (hp.read hw).first.span.located.atSpan cause⟩

/-- An expression in hand may be refused. -/
theorem Takes.failAt_expr {expr : Expr} (hc : cause ≠ .stalled) :
    Takes watch n span b [.expr expr] next (Grammar.failAt expr.span cause)
      (Grammar.failAt expr.span cause) gain := by
  rintro source start mark - - p ⟨hp, -⟩
  exact ⟨rfl, hc, fun hw => ((hp.read hw).below (.expr expr)
    (by simp [Node.mem_preorder_self])).2.span.located.atSpan cause⟩

/-! ## New nodes -/

/-- A new expression takes up what is in hand. -/
theorem Takes.expr (build : Site → Expr) {f f' : Site → Parse α}
    (h : watch → ∀ s, (build s).site = s ∧ Covers given (exprNodes (build s).children) ∧
      (Node.expr (build s)).Starless)
    (hf : ∀ s, Takes watch n span true [.expr (build s)] none (f s) (f' s) gain) :
    Takes watch n span true given next (exprSite span >>= f) (exprSite span >>= f') gain := by
  rintro source start mark rfl hm p ⟨hp, -⟩
  obtain ⟨ts, passes, moved⟩ := hp.passes
  refine hf ⟨_, p.expressions⟩ source start mark rfl hm ⟨⟨?_, fun hw => ?_⟩, nofun⟩
  · exact ⟨ts, List.append_nil ts ▸ passes.trans (.nil rfl rfl), moved⟩
  · obtain ⟨site, covers, starless⟩ := h hw ⟨_, p.expressions⟩
    exact (hp.read hw).expr (by rw [Expr.index, site]) (by rw [Expr.span, site]) covers starless

/-- A new expression that is the value of the rule. -/
theorem Takes.exprNode (build : Site → Expr)
    (h : watch → ∀ s, (build s).site = s ∧ Covers given (exprNodes (build s).children) ∧
      (Node.expr (build s)).Starless) :
    Takes watch n span true given next (exprSite span >>= fun s => Pure.pure (build s))
      (exprSite span >>= fun s => Pure.pure (build s)) .expr :=
  .expr build h fun _ => .done rfl rfl

/-- A new statement takes up what is in hand. -/
theorem Takes.stmtNode (build : Site → Stmt)
    (h : watch → ∀ s, (build s).site = s ∧ Covers given (build s).children ∧
      (Node.stmt (build s)).Starless) :
    Takes watch n span true given next (stmtSite span >>= fun s => Pure.pure (build s))
      (stmtSite span >>= fun s => Pure.pure (build s)) .stmt := by
  rintro source start mark rfl - p ⟨hp, -⟩
  obtain ⟨ts, passes, moved⟩ := hp.passes
  refine ⟨rfl, ⟨⟨ts, List.append_nil ts ▸ passes.trans (.nil rfl rfl), moved⟩, fun hw => ?_⟩,
    fun _ => trivial⟩
  obtain ⟨site, covers, starless⟩ := h hw ⟨_, p.statements⟩
  exact (hp.read hw).stmt (by rw [Stmt.index, site]) (by rw [Stmt.span, site]) covers starless

/-! ## The next token -/

/-- The next token may be given a name. -/
theorem Takes.on (h : ∀ t, Takes watch n span b given (some t) x y gain) :
    Takes watch n span b given next x y gain := by
  rintro source start mark hs hm p ⟨hp, -⟩
  refine h p.token source start mark hs hm ⟨hp, ?_⟩
  rintro _ ⟨⟩
  rfl

theorem Takes.off (h : Takes watch n span b given none x y gain) :
    Takes watch n span b given next x y gain :=
  fun source start mark hs hm _ hp => h source start mark hs hm ⟨hp.1, nofun⟩

/-- The next token is as the lexer gives it. -/
theorem Takes.named (h : (watch → t.Named) → Takes watch n span b given (some t) x y gain) :
    Takes watch n span b given (some t) x y gain := by
  intro source start mark hs hm p hp
  exact h (fun hw => hp.2 t rfl ▸ (hp.1.sound hw).named) source start mark hs hm hp

/-- A step that looks at the next token. -/
theorem Takes.look {step : Parse β} {look : Token → β} (hx : ∀ p, step p = .ok (look p.token) p)
    (h : Takes watch n span b given (some t) (f (look t)) (f' (look t)) gain) :
    Takes watch n span b given (some t) (step >>= f) (step >>= f') gain := by
  intro source start mark hs hm p hp
  simp only [Bind.bind, EStateM.bind, hx]
  obtain rfl := hp.2 t rfl
  exact h source start mark hs hm hp

theorem Takes.token {f f' : Token → Parse α}
    (h : Takes watch n span b given (some t) (f t) (f' t) gain) :
    Takes watch n span b given (some t) (token >>= f) (Grammar.token >>= f') gain :=
  .look (show ∀ p, Grammar.token p = .ok (id p.token) p from fun _ => rfl) h

theorem Takes.word {f f' : String → Parse α}
    (h : Takes watch n span b given (some t) (f t.word) (f' t.word) gain) :
    Takes watch n span b given (some t) (word >>= f) (Grammar.word >>= f') gain :=
  .look (fun _ => rfl) h

theorem Takes.kind {f f' : TokenKind → Parse α}
    (h : Takes watch n span b given (some t) (f t.kind) (f' t.kind) gain) :
    Takes watch n span b given (some t) (kind >>= f) (Grammar.kind >>= f') gain :=
  .look (fun _ => rfl) h

theorem Takes.here {f f' : Span → Parse α}
    (h : Takes watch n span b given (some t) (f t.span) (f' t.span) gain) :
    Takes watch n span b given (some t) (here >>= f) (Grammar.here >>= f') gain :=
  .look (fun _ => rfl) h

theorem Takes.spanSince {a : Span} {f f' : Span → Parse α}
    (h : ∀ a, Takes watch n span b given next (f a) (f' a) gain) :
    Takes watch n span b given next (spanSince a >>= f) (Grammar.spanSince a >>= f') gain :=
  fun source start mark hs hm _ hp => h _ source start mark hs hm hp

/-! ## Passing tokens -/

theorem Takes.advance {f f' : Unit → Parse α} (ht : t.kind ≠ .eof)
    (h : Takes watch n span true given none (f ()) (f' ()) gain) :
    Takes watch n span b given (some t) (advance >>= f) (Grammar.advance >>= f') gain := by
  rintro source start mark hs hm p ⟨hp, hn⟩
  obtain rfl := hn t rfl
  have delivers := hp.advance ht
  simp only [Bind.bind, EStateM.bind]
  cases hr : Grammar.advance p with
  | ok u q =>
    rw [hr] at delivers
    exact h source start mark hs hm ⟨delivers, nofun⟩
  | error error q =>
    rw [hr] at delivers
    exact ⟨rfl, delivers⟩

/-- The end token has no word. -/
theorem word_of_eof (hk : t.kind = .eof) : t.word = "" :=
  Token.word_eq_of_isLayout (Token.isLayout_of_eof hk)

theorem Takes.advance_word {f f' : Unit → Parse α} (ht : t.word = text) (hw : (text == "") = false)
    (h : Takes watch n span true given none (f ()) (f' ()) gain) :
    Takes watch n span b given (some t) (Grammar.advance >>= f) (Grammar.advance >>= f') gain := by
  refine .advance (fun hk => ?_) h
  rw [word_of_eof hk] at ht
  cases (beq_iff_eq.2 ht.symm).symm.trans hw

/-- A word, passed if it comes next. -/
theorem Takes.accept_bool {f f' : Bool → Parse α} (hw : (text == "") = false)
    (htrue : Takes watch n span true given none (f true) (f' true) gain)
    (hfalse : Takes watch n span b given none (f false) (f' false) gain) :
    Takes watch n span b given next (accept text >>= f) (Grammar.accept text >>= f') gain := by
  unfold Grammar.accept
  simp only [bind_assoc]
  refine .on fun t => .word ?_
  by_cases ht : t.word = text
  · simp only [if_pos ht, bind_assoc, pure_bind]
    exact .advance_word ht hw htrue
  · simp only [if_neg ht, pure_bind]
    exact hfalse.off

theorem Takes.accept {x' y' : Parse α} (hw : (text == "") = false)
    (htrue : Takes watch n span true given none x y gain)
    (hfalse : Takes watch n span b given none x' y' gain) :
    Takes watch n span b given next (Grammar.accept text >>= fun r => if r = true then x else x')
      (Grammar.accept text >>= fun r => if r = true then y else y') gain :=
  .accept_bool hw htrue hfalse

/-- It may be forgotten whether a word was passed. -/
theorem Takes.accept_any {f f' : Bool → Parse α} (hw : (text == "") = false)
    (h : ∀ r, Takes watch n span b given none (f r) (f' r) gain) :
    Takes watch n span b given next (Grammar.accept text >>= f) (Grammar.accept text >>= f') gain := by
  refine .accept_bool hw ?_ (h false)
  exact fun source start mark hs hm => (h true source start mark hs hm).weaken
    (fun _ hp => ⟨hp.1.weaken fun _ => rfl, hp.2⟩) fun _ _ hv => hv

/-- A word that has to come next. -/
theorem Takes.expect {context : String} {f f' : Unit → Parse α} (hw : (text == "") = false)
    (h : Takes watch n span true given none (f ()) (f' ()) gain) :
    Takes watch n span b given next (expect text context >>= f) (Grammar.expect text context >>= f')
      gain := by
  unfold Grammar.expect
  simp only [bind_assoc]
  refine .on fun t => .word ?_
  by_cases ht : t.word = text
  · simp only [if_pos ht]
    exact .advance_word ht hw h
  · simp only [if_neg ht]
    have failed : Takes watch n span b given (some t) (Grammar.fail (.expecting text context))
        (Grammar.fail (.expecting text context)) ⟨fun _ => true, fun (_ : Unit) => given, fun _ => True⟩ :=
      .fail nofun
    exact failed.bind fun _ _ => h

/-- The end of a line, or of the text. -/
theorem Takes.lineEnd {context : String} {f f' : Unit → Parse α}
    (h : Takes watch n span b given none (f ()) (f' ()) gain) :
    Takes watch n span b given next (expectLineEnd context >>= f) (expectLineEnd context >>= f')
      gain := by
  have passed : Takes watch n span b given next (expectLineEnd context) (expectLineEnd context)
      ⟨fun _ => b, fun _ => given, fun _ => True⟩ := by
    unfold expectLineEnd
    refine .on fun t => .kind ?_
    cases hk : t.kind with
    | newline =>
      rw [← bind_pure Grammar.advance]
      exact .advance (by rw [hk]; nofun) (.pure (by simp) (.refl _) fun _ => trivial)
    | eof => exact .pure (by simp) (.refl _) fun _ => trivial
    | _ => exact .fail nofun
  exact passed.bind fun _ _ => h

/-- A name that is not reserved is a name. -/
theorem ident_reads :
    Reads watch n ident ident (.tokens (fun _ => true) fun i => StartsName i.text) := by
  refine .on fun t => .named fun named => .token ?_
  split
  · exact .fail nofun
  split
  · exact .fail nofun
  · next hk _ =>
    have hk := Decidable.not_not.1 hk
    exact .advance (by rw [hk]; nofun) (.pure rfl (.refl _) fun hw => named hw hk)

/-! ## Nesting and repetition -/

theorem Reads.nested (h : Reads watch n x y gain) :
    Reads watch n (nested x) (Grammar.nested y) gain := by
  intro source p hp hs
  have start : Since watch source p p false [] { p with depth := p.depth + 1 } := (Since.fresh hs).depth _
  have deeper : Within n { p with depth := p.depth + 1 } := ⟨hp.quiet, hp.left⟩
  obtain ⟨same, delivers⟩ := h deeper start.sound
  unfold Grammar.nested
  split
  · exact ⟨rfl, (Since.fresh hs).refused nofun⟩
  · rw [← same]
    refine ⟨rfl, ?_⟩
    cases hx : x { p with depth := p.depth + 1 } with
    | ok v q =>
      rw [hx] at delivers
      have whole := (start.append delivers.1).depth (q.depth - 1)
      rw [Bool.or_false] at whole
      exact ⟨whole, delivers.2⟩
    | error error q =>
      rw [hx] at delivers
      exact delivers

/-- **A loop whose rounds pass tokens does not reach its bound.** -/
theorem Reads.many {x y : Parse (Option α)} (h : Reads watch n x y gain.maybe) (hc : n ≤ c)
    (hc' : n ≤ c') : Reads watch n (many x c) (Grammar.many y c') (gain.each false) := by
  induction n generalizing c c' with
  | zero => exact fun _ _ hp => absurd hp.left (Nat.not_lt_zero _)
  | succ n ih =>
    obtain ⟨c, rfl⟩ : ∃ k, c = k + 1 := ⟨c - 1, by omega⟩
    obtain ⟨c', rfl⟩ : ∃ k, c' = k + 1 := ⟨c' - 1, by omega⟩
    rw [Grammar.many, Grammar.many]
    refine .on fun t => h.bind fun o ho => ?_
    cases o with
    | none => exact .pure rfl (.refl _) fun _ _ hv => by cases hv
    | some v =>
      refine (ih h.back (by omega) (by omega)).past fun vs hvs => .pure rfl ?_ fun hw => ?_
      · rw [show gain.maybe.nodes (some v) = gain.nodes v from List.append_nil _]
        exact .refl _
      · exact List.forall_mem_cons.2 ⟨ho hw v rfl, hvs hw⟩

/-- A loop that passes tokens only. -/
theorem Reads.repeated {rule rule' : α → Parse (Option α)} {fact : α → Prop}
    (h : ∀ v, (watch → fact v) →
      Reads watch n (rule v) (rule' v) (.tokens Option.isSome fun o => fact (o.getD v)))
    (hc : n ≤ c) (hc' : n ≤ c') (hv : watch → fact v) :
    Reads watch n (repeated rule c v) (Grammar.repeated rule' c' v) (.tokens (fun _ => false) fact) := by
  induction n generalizing c c' v with
  | zero => exact fun _ _ hp => absurd hp.left (Nat.not_lt_zero _)
  | succ n ih =>
    obtain ⟨c, rfl⟩ : ∃ k, c = k + 1 := ⟨c - 1, by omega⟩
    obtain ⟨c', rfl⟩ : ∃ k, c' = k + 1 := ⟨c' - 1, by omega⟩
    rw [Grammar.repeated, Grammar.repeated]
    refine .on fun t => (h v hv).bind fun o ho => ?_
    cases o with
    | none => exact .pure rfl (.refl _) hv
    | some w => exact (ih (fun v hv => (h v hv).back) (by omega) (by omega) ho).takes_past

/-- Where an expression is in hand, a token was passed since its start. -/
theorem Read.held {source : Source} {start p : Parser} {e : Expr}
    (h : Read source start b [.expr e] p) : Read source start true [.expr e] p := by
  refine ⟨{ h.toLaid with passed := fun _ => ?_ }, h.exprs, h.stmts⟩
  obtain ⟨begins, ends⟩ := h.within (.expr e) List.mem_cons_self
  have ordered := (h.below (.expr e) (by simp [Node.mem_preorder_self])).2.span.ordered
  exact Nat.le_trans begins (Nat.le_trans ordered ends)

/-- The tokens that a loop passes are counted anew in each round. -/
theorem Takes.remark {x y : Parse Expr} {e : Expr}
    (h : Takes watch n span false [.expr e] none x y (.of (fun _ => false) fun v => [.expr v])) :
    Takes watch (n + 1) span true [.expr e] next x y .expr := by
  rintro source start mark hs hm p ⟨hp, -⟩
  have here : Since watch source start p false [.expr e] p :=
    ⟨⟨[], .nil rfl rfl, nofun⟩, fun hw => (hp.read hw).weaken nofun⟩
  obtain ⟨same, delivers⟩ := h source start p hs (hp.within_past hm) ⟨here, nofun⟩
  refine ⟨same, ?_⟩
  cases hr : x p with
  | ok v q =>
    rw [hr] at delivers
    obtain ⟨ts, passes, moved⟩ := hp.passes
    obtain ⟨us, more, -⟩ := delivers.1.passes
    exact ⟨⟨⟨ts ++ us, passes.trans more, fun _ => List.append_ne_nil_of_left_ne_nil (moved rfl) us⟩,
      fun hw => (delivers.1.read hw).held⟩, delivers.2⟩
  | error error q =>
    rw [hr] at delivers
    exact delivers

/-- A loop that takes up an expression in each round. -/
theorem Takes.repeated {rule rule' : Expr → Parse (Option Expr)}
    (h : ∀ e, Takes watch n span false [.expr e] none (rule e) (rule' e)
      (.of Option.isSome fun o => [.expr (o.getD e)])) (hc : n ≤ c) (hc' : n ≤ c') (e : Expr) :
    Takes watch (n + 1) span true [.expr e] next (repeated rule c e) (Grammar.repeated rule' c' e)
      .expr := by
  refine .remark ?_
  induction n generalizing c c' e with
  | zero => exact fun _ _ _ _ hm => absurd hm.left (Nat.not_lt_zero _)
  | succ n ih =>
    obtain ⟨c, rfl⟩ : ∃ k, c = k + 1 := ⟨c - 1, by omega⟩
    obtain ⟨c', rfl⟩ : ∃ k, c' = k + 1 := ⟨c' - 1, by omega⟩
    rw [Grammar.repeated, Grammar.repeated]
    refine (h e).bind fun o _ => ?_
    cases o with
    | none => exact .done rfl rfl
    | some e' =>
      refine (Takes.remark (ih (fun e source start mark hs hm => ?_) (by omega) (by omega) e')).lax
      exact h e source start mark hs (hm.mono (Nat.le_succ n))

section Separated

variable {item item' : Parse α} {separator : String} {last : Token → Bool} {c c' : Nat}

theorem nextItem_reads (hw : (separator == "") = false) (h : Reads watch n item item' gain) :
    Reads watch n (nextItem? separator last item) (nextItem? separator last item') gain.maybe := by
  refine .on fun t => .accept hw (.on fun t => .token ?_) .nothing
  split
  · exact .nothing
  · refine h.bind fun v hv => ?_
    rw [Bool.or_true]
    exact .found rfl hv

theorem Reads.following (hw : (separator == "") = false) (h : Reads watch n item item' gain)
    (hc : n ≤ c) (hc' : n ≤ c') :
    Reads watch n (following separator last item c) (Grammar.following separator last item' c')
      (gain.each false) := by
  rw [following_eq_many, following_eq_many]
  exact (nextItem_reads hw h).many hc hc'

theorem Reads.separated (hw : (separator == "") = false) (h : Reads watch n item item' gain)
    (hp : ∀ v, gain.passed v = true) (hc : n ≤ c) (hc' : n ≤ c') :
    Reads watch n (separated separator last item c) (Grammar.separated separator last item' c')
      (gain.each true) := by
  refine .on fun t => h.bind fun v hv => (h.following hw hc hc').bind fun vs hvs => ?_
  refine .pure (by simp [hp, Gain.each]) (.refl _) fun hw => ?_
  exact List.forall_mem_cons.2 ⟨hv hw, hvs hw⟩

end Separated

theorem Gain.each_tokens (passed : α → Bool) (fact : α → Prop) (b : Bool) :
    (tokens passed fact).each b = tokens (fun _ => b) fun vs => ∀ v ∈ vs, fact v := by
  simp only [each, tokens, Gain.mk.injEq, true_and, and_true]
  exact funext fun vs => List.flatMap_eq_nil_iff.2 fun _ _ => rfl

/-! ## Values made of expressions -/

theorem flatMap_expr (es : List Expr) : es.flatMap (fun e => [Node.expr e]) = exprNodes es :=
  List.flatMap_pure_eq_map _ _

end Grammar

end SdkUsage
