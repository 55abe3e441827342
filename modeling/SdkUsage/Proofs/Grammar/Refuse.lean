/-
Where no expression and no statement starts. A rule refuses a token if it fails wherever this
token comes next. There is a law for each way in which a rule looks at its first token, so that
what a rule refuses is shown along its text, down to the rule that would have to pass the token.

All levels of expressions refuse the tokens of which `startsExpression` says that they start
none (`expression_refuses`). So a list of expressions that stops after a comma, where such a
token comes, stops where no item can be read. No statement starts with a word that continues
another one, such as `else`, or with an indentation (`statement_refuses`). So a text that is
parsed starts with neither.
-/
import SdkUsage.Proofs.Grammar.Follow
import SdkUsage.Proofs.Grammar.Progress
import SdkUsage.Proofs.Grammar.Rule
import SdkUsage.Grammar.Statement

namespace SdkUsage.Grammar

open SdkUsage.Tree

/-- A rule fails wherever the given token comes next. -/
def Refuses {α : Type} (t : Token) (rule : Parse α) : Prop :=
  Ensures (fun p => p.token = t) rule fun _ _ => False

namespace Refuses

variable {α β : Type} {t : Token}

theorem fail {cause : SyntaxError.Cause} : Refuses t (fail cause : Parse α) := Ensures.fail

/-- What comes after a rule that refuses a token does not matter. -/
theorem bind {x : Parse β} {f : β → Parse α} (h : Refuses t x) : Refuses t (x >>= f) :=
  Ensures.bind h fun _ _ _ _ hp => hp.elim

theorem here {f : Span → Parse α} (h : ∀ span, Refuses t (f span)) : Refuses t (here >>= f) :=
  fun p _ _ hp heq => h p.token.span hp heq

theorem token {f : Token → Parse α} (h : Refuses t (f t)) : Refuses t (token >>= f) := by
  intro p v q hp heq
  rw [← hp] at h
  exact h rfl heq

theorem word {f : String → Parse α} (h : Refuses t (f t.word)) : Refuses t (word >>= f) := by
  intro p v q hp heq
  rw [← hp] at h
  exact h rfl heq

theorem kind {f : TokenKind → Parse α} (h : Refuses t (f t.kind)) : Refuses t (kind >>= f) := by
  intro p v q hp heq
  rw [← hp] at h
  exact h rfl heq

/-- A word that does not come next is not passed. -/
theorem accept {text : String} {x y : Parse α} (ht : t.word ≠ text) (h : Refuses t y) :
    Refuses t (Grammar.accept text >>= fun b => if b = true then x else y) := by
  unfold Grammar.accept
  simp only [bind_assoc]
  refine word ?_
  rw [if_neg ht, pure_bind]
  exact h

theorem nested {x : Parse α} (h : Refuses t x) : Refuses t (nested x) := by
  intro p v q hp heq
  unfold Grammar.nested at heq
  split at heq
  · cases heq
  · split at heq
    · next hx => exact @h { p with depth := p.depth + 1 } _ _ hp hx
    · cases heq

end Refuses

/-! ## Tokens that start no expression -/

/-- A token that starts no expression. A symbol is one of the table. -/
structure Foreign (t : Token) : Prop where
  starts : startsExpression t = false
  symbol : t.kind = .symbol → t.text ∈ symbols

/-- The words by which expressions tell how they start. -/
def openers : List String :=
  ["await", "lambda", "not", "*", "-", "+", "~", "(", "[", "\x7b", "None", "True", "False", "..."]

namespace Foreign

variable {t : Token}

theorem word_notMem (h : Foreign t) : t.word ∉ openers := by
  have names : ∀ word ∈ openers, (!isKeyword word ||
      ["None", "True", "False", "not", "lambda", "await"].contains word) = true := by decide
  have marks : ∀ word ∈ openers, word ∈ symbols →
      ["(", "[", "\x7b", "-", "+", "~", "*", "..."].contains word = true := by decide
  have empty : "" ∉ openers := by decide
  have starts := h.starts
  intro hm
  unfold startsExpression at starts
  unfold Token.word at hm
  cases hk : t.kind with
  | ident =>
    simp only [hk] at starts hm
    cases (names _ hm).symm.trans starts
  | symbol =>
    simp only [hk] at starts hm
    cases (marks _ hm (h.symbol hk)).symm.trans starts
  | number => simp [hk] at starts
  | string | newline | indent | dedent | eof =>
    simp only [hk] at hm
    exact empty hm

theorem ne (h : Foreign t) (text : String) (ht : text ∈ openers) : t.word ≠ text := by
  rintro rfl
  exact h.word_notMem ht

theorem constantOf? (h : Foreign t) : Recursion.constantOf? t.word = none := by
  simp [Recursion.constantOf?, h.ne "None" (by decide), h.ne "True" (by decide),
    h.ne "False" (by decide), h.ne "..." (by decide)]

theorem ident_refuses (h : Foreign t) : Refuses t ident := by
  refine .token ?_
  split
  · exact .fail
  · next hk =>
    have starts := h.starts
    rw [not_not] at hk
    simp only [startsExpression, hk, Bool.or_eq_false_iff, Bool.not_eq_false'] at starts
    rw [if_pos starts.1]
    exact .fail

end Foreign

namespace Recursion

variable {g : Recursion} {t : Token} (ht : Foreign t)

include ht

/-! ## Expressions -/

theorem atom_refuses : Refuses t g.atom := by
  have starts := ht.starts
  have constant := ht.constantOf?
  refine .token ?_
  unfold startsExpression at starts
  unfold Token.word at constant
  cases hk : t.kind with
  | string | number => simp [hk] at starts
  | newline | indent | dedent | eof => exact .fail
  | ident =>
    simp only [hk] at constant
    simp only [constant]
    exact .here fun _ => .bind ht.ident_refuses
  | symbol =>
    have text : t.word = t.text := by rw [Token.word, hk]
    simp only [hk] at constant
    simp only [← text, if_neg (ht.ne "(" (by decide)), if_neg (ht.ne "[" (by decide)),
      if_neg (ht.ne "\x7b" (by decide))]
    rw [text, constant]
    exact .fail

theorem awaitExpr_refuses : Refuses t g.awaitExpr := by
  refine .here fun _ => .accept (ht.ne _ (by decide)) ?_
  exact .here fun _ => .bind (atom_refuses ht)

theorem factor_refuses : Refuses t g.factor := by
  have sign : signOf? t.word = none := by
    simp [signOf?, ht.ne "-" (by decide), ht.ne "+" (by decide), ht.ne "~" (by decide)]
  refine .here fun _ => .word ?_
  rw [sign]
  exact .here fun _ => .bind (awaitExpr_refuses ht)

omit ht in
theorem binaryLevel_refuses {ops : List (String × BinOp)} {next : Parse Expr}
    (h : Refuses t next) : Refuses t (g.binaryLevel ops next) :=
  .here fun _ => .bind h

omit ht in
theorem boolLevel_refuses {text : String} {op : BoolOp} {next : Parse Expr}
    (h : Refuses t next) : Refuses t (g.boolLevel text op next) :=
  .here fun _ => .bind h

theorem bitOr_refuses : Refuses t g.bitOr := by
  have term : Refuses t g.term := binaryLevel_refuses (factor_refuses ht)
  have shift : Refuses t g.shift := binaryLevel_refuses (binaryLevel_refuses term)
  exact binaryLevel_refuses (binaryLevel_refuses (binaryLevel_refuses shift))

theorem notTest_refuses : Refuses t g.notTest := by
  refine .here fun _ => .accept (ht.ne _ (by decide)) ?_
  exact .here fun _ => .bind (bitOr_refuses ht)

theorem orTest_refuses : Refuses t g.orTest :=
  boolLevel_refuses (boolLevel_refuses (notTest_refuses ht))

theorem conditional_refuses : Refuses t g.conditional := by
  refine .word ?_
  rw [if_neg (ht.ne _ (by decide))]
  exact .here fun _ => .bind (orTest_refuses ht)

omit g in
/-- **No level of expressions starts with such a token.** -/
theorem expression_refuses (bound : Nat) (level : Level) : Refuses t (expression bound level) := by
  cases bound with
  | zero => exact .fail
  | succ bound =>
    cases level with
    | conditional => exact conditional_refuses ht
    | disjunction => exact orTest_refuses ht
    | negation => exact notTest_refuses ht
    | bitOr => exact bitOr_refuses ht
    | factor => exact factor_refuses ht

theorem starOr_refuses {other : Parse Expr} (h : Refuses t other) : Refuses t (g.starOr other) :=
  .here fun _ => .accept (ht.ne _ (by decide)) h

end Recursion

/-! ## Lists of expressions -/

/-- The next token was given by a lexer. -/
def Parser.Given (p : Parser) : Prop := ∃ l : Lexer, l.Quiet ∧ l.next = (.ok p.token, p.lexer)

theorem Parser.Given.advance {p q : Parser} {u : Unit} (h : p.Given) (ha : advance p = .ok u q) :
    q.Given := by
  obtain ⟨l, quiet, next⟩ := h
  obtain ⟨t, l', next', rfl⟩ := advance_eq_ok ha
  exact ⟨p.lexer, (Lexer.next_fair quiet next).quiet, next'⟩

/-- A symbol that is spelled is one of the table. -/
theorem spelled_mem_symbols {t : Token} (h : t.Spelled) (hk : t.kind = .symbol) :
    t.text ∈ symbols := by
  obtain ⟨after, found⟩ := h
  rw [hk] at found
  generalize t.text.toList ++ after = text at found
  generalize hsymbol : t.text.toList = symbol at found
  cases tokenAt?_cases found with
  | symbol found =>
    obtain ⟨word, listed, heq⟩ := List.mem_map.1 (symbolAt?_front found).1
    rwa [String.toList_inj.1 (hsymbol.trans heq.symm)]

theorem Parser.Given.foreign {p : Parser} (h : p.Given) (hs : startsExpression p.token = false) :
    Foreign p.token := by
  obtain ⟨l, quiet, next⟩ := h
  have spelled := (Lexer.next_fair quiet next).spelled
  exact ⟨hs, fun hk => spelled_mem_symbols (spelled (by simp [Token.isLayout, hk])) hk⟩

/-- The items of lists of expressions and of lists of targets, with any bounds. -/
inductive ListItem : Parse Expr → Prop
  | value (k n : Nat) :
      ListItem (Recursion.starOr ⟨k, expression n⟩ (Recursion.test ⟨k, expression n⟩))
  | target (k n : Nat) : ListItem (Recursion.starOr ⟨k, expression n⟩ (expression n .bitOr))

theorem ListItem.refuses {item : Parse Expr} {t : Token} (h : ListItem item) (ht : Foreign t) :
    Refuses t item := by
  cases h with
  | value k n => exact Recursion.starOr_refuses ht (.nested (Recursion.expression_refuses ht n _))
  | target k n => exact Recursion.starOr_refuses ht (Recursion.expression_refuses ht n _)

/-- No item of a list can be read. -/
def NoItem (p : Parser) : Prop := ∀ item v q, ListItem item → item p ≠ .ok v q

theorem Parser.Given.noItem {p : Parser} (h : p.Given) (hs : startsExpression p.token = false) :
    NoItem p :=
  fun _ _ _ hi heq => hi.refuses (h.foreign hs) rfl heq

theorem Ensures.any {α : Type} {pre : Parser → Prop} {rule : Parse α} :
    Ensures pre rule fun _ _ => True :=
  fun _ _ _ _ _ => trivial

theorem advance_given : Ensures Parser.Given advance fun _ => Parser.Given :=
  fun _ _ _ given ha => given.advance ha

theorem accept_given {text : String} :
    Ensures Parser.Given (accept text) fun _ => Parser.Given := by
  refine .bind (m := fun _ => Parser.Given) ?_ fun word => ?_
  · rintro p w q given ⟨⟩
    exact given
  split
  · exact advance_given.bind fun _ => .pure fun _ given => given
  · exact .pure fun _ given => given

/-- A list stops after a comma only where no item can be read. -/
theorem nextItem?_noItem {item : Parse Expr} :
    Ensures (fun p => p.Given ∧ p.token.word = ",") (nextItem? "," (!startsExpression ·) item)
      fun r q => r = none → NoItem q := by
  have comma : Ensures (fun p => p.Given ∧ p.token.word = ",") (accept ",")
      fun b q => b = true ∧ q.Given := by
    refine .bind (m := fun w p => p.Given ∧ w = ",") ?_ fun w => ?_
    · rintro p w q ⟨given, word⟩ ⟨⟩
      exact ⟨given, word⟩
    split
    · exact (advance_given.weaken (fun _ hp => hp.1) fun _ _ given => given).bind
        fun _ => .pure fun _ given => ⟨rfl, given⟩
    · next hne => exact .pure fun p hp => absurd hp.2 hne
  refine comma.bind fun b => ?_
  split
  · refine Ensures.token.bind fun t => ?_
    split
    · next hs =>
      rw [Bool.not_eq_true'] at hs
      refine .pure ?_
      rintro p ⟨⟨-, given⟩, rfl⟩ -
      exact given.noItem hs
    · refine Ensures.any.bind fun v => .pure ?_
      intro p _ heq
      cases heq
  · next hb => exact .pure fun p hp => absurd hp.1 hb

/-- A `yield` without a value ends only where no item can be read. -/
theorem yieldExpr_noItem (g : Recursion) :
    Ensures Parser.Given g.yieldExpr fun e q => ∀ site, e = .yield site none false → NoItem q := by
  refine .bind (m := fun _ => Parser.Given) (by rintro p v q given ⟨⟩; exact given) fun start => ?_
  refine .bind (m := fun _ => Parser.Given) ?_ fun _ => accept_given.bind fun b => ?_
  · refine .bind (m := fun _ => Parser.Given) (by rintro p v q given ⟨⟩; exact given) fun word => ?_
    split
    · exact advance_given
    · exact .fail
  split
  · exact Ensures.any.bind fun _ => Ensures.any.bind fun _ => .pure nofun
  refine Ensures.token.bind fun t => ?_
  split
  · exact Ensures.any.bind fun _ => Ensures.any.bind fun _ => .pure nofun
  · next hs =>
    rw [Bool.not_eq_true] at hs
    refine .bind (m := fun _ p => p.Given ∧ p.token = t) ?_ fun site => .pure ?_
    · rintro p site q ⟨given, rfl⟩ ⟨⟩
      exact ⟨given, rfl⟩
    · rintro p ⟨given, rfl⟩ _ _
      exact given.noItem hs

/-- **The test for a first token cuts off no expression.** Wherever the lexer gave the next token:
an item of a list is read only if its first token can start an expression. So a list that stops
after a comma, and a `yield` that has no value, stop where no item can be read. -/
theorem items_startExpression (source : Source) {ts : List Token} {l : Lexer} {p : Parser}
    (hg : (Lexer.start source).Gives ts l) (hp : l.next = (.ok p.token, p.lexer)) :
    (∀ item v q, ListItem item → item p = .ok v q → startsExpression p.token = true) ∧
    (∀ item q, ListItem item → p.token.word = "," →
      nextItem? "," (!startsExpression ·) item p = .ok none q → NoItem q) ∧
    ∀ k n site q, Recursion.yieldExpr ⟨k, expression n⟩ p = .ok (.yield site none false) q →
      NoItem q := by
  have given : p.Given := ⟨l, hg.quiet (Lexer.start_quiet source), hp⟩
  refine ⟨fun item v q hi heq => ?_, fun item q _ hw heq => ?_, fun k n site q heq => ?_⟩
  · by_contra hs
    exact given.noItem (Bool.not_eq_true _ ▸ hs) item v q hi heq
  · exact nextItem?_noItem ⟨given, hw⟩ heq rfl
  · exact yieldExpr_noItem _ given heq site rfl

/-- A list of one expression, with a comma behind it. -/
def trailingComma : Source where
  file := "main.py"
  text := "x,\n"

theorem trailingComma_stops : ∃ ts l p q, (Lexer.start trailingComma).Gives ts l ∧
    l.next = (.ok p.token, p.lexer) ∧ p.token.word = "," ∧
    nextItem? "," (!startsExpression ·)
      (Recursion.starOr ⟨9, expression 9⟩ (Recursion.test ⟨9, expression 9⟩)) p = .ok none q ∧
    NoItem q := by
  have found : ((Lexer.start trailingComma).tokens? 9).map
      (·.map fun t => (t.word, startsExpression t)) =
        some [("x", true), (",", false), ("", false), ("", false)] := by decide +kernel
  obtain ⟨ts, hts, heq⟩ := Option.map_eq_some_iff.1 found
  obtain ⟨-, last, gives⟩ := Lexer.gives_of_tokens hts
  rcases ts with _ | ⟨x, _ | ⟨comma, _ | ⟨u, us⟩⟩⟩
  · simp at heq
  · simp at heq
  · simp at heq
  simp only [List.map_cons, List.cons.injEq, Prod.mk.injEq] at heq
  obtain ⟨-, ⟨word, -⟩, ⟨-, starts⟩, -⟩ := heq
  obtain ⟨l, first, gives⟩ := gives.uncons
  obtain ⟨l', second, gives⟩ := gives.uncons
  obtain ⟨l'', third, -⟩ := gives.uncons
  have run : (Lexer.start trailingComma).Gives [x] l := .cons first (.nil l)
  let p : Parser := ⟨l', comma, 0, 0, 0, 0⟩
  have stops (item : Parse Expr) : nextItem? "," (!startsExpression ·) item p =
      .ok none ⟨l'', u, comma.span.stop, 0, 0, 0⟩ := by
    have passed : accept "," p = .ok true ⟨l'', u, comma.span.stop, 0, 0, 0⟩ := by
      show (if comma.word = "," then advance >>= fun _ => pure true else pure false : Parse Bool) p = _
      simp only [word, if_true, Bind.bind, EStateM.bind, advance, p, third]
      rfl
    simp only [nextItem?, Bind.bind, EStateM.bind, passed, if_true]
    show (if (!startsExpression u) = true then pure none else _ : Parse (Option Expr)) _ = _
    rw [starts]
    rfl
  exact ⟨[x], l, p, _, run, second, word, stops _,
    (@items_startExpression trailingComma [x] l p run second).2.1 _ _ (.value 9 9) word (stops _)⟩

/-! ## Words that continue a statement -/

/-- A name that continues a statement. -/
structure Continuing (t : Token) : Prop where
  kind : t.kind = .ident
  word : t.word ∈ clauseWords

namespace Continuing

variable {t : Token}

theorem ne (h : Continuing t) {text : String} (ht : text ∉ clauseWords) : t.word ≠ text := by
  intro heq
  exact ht (heq ▸ h.word)

theorem foreign (h : Continuing t) : Foreign t := by
  have reserved : ∀ word ∈ clauseWords, (!isKeyword word ||
      ["None", "True", "False", "not", "lambda", "await"].contains word) = false := by decide
  have word := h.word
  rw [Token.word, h.kind] at word
  refine ⟨?_, fun hk => ?_⟩
  · rw [startsExpression, h.kind]
    exact reserved t.text word
  · cases h.kind.symm.trans hk

end Continuing

namespace Recursion

variable {g : Recursion} {t : Token} (ht : Continuing t)

include ht

/-! ## Statements -/

theorem exprStmt_refuses (hg : Refuses t (g.expr .conditional)) : Refuses t g.exprStmt := by
  refine .here fun _ => .bind (.word ?_)
  rw [if_neg (ht.ne (by decide))]
  refine .here fun _ => .bind (.here fun _ => .accept (ht.ne (by decide)) ?_)
  exact .nested hg

theorem simpleStmts_refuses (hg : Refuses t (g.expr .conditional)) : Refuses t g.simpleStmts := by
  have small : Refuses t g.smallStmt := by
    refine .word ?_
    split <;> first | exact exprStmt_refuses ht hg | exact absurd ‹_› (ht.ne (by decide))
  exact .bind (.bind small)

end Recursion

/-- **No statement starts with a word that continues one, or with an indentation.** -/
theorem statement_refuses {t : Token} (ht : Continuing t ∨ t.kind = .indent) (bound : Nat) :
    Refuses t ((rules bound).stmts .statement) := by
  cases bound with
  | zero => exact .fail
  | succ bound =>
    refine .kind ?_
    rcases ht with ht | ht
    · rw [ht.kind]
      refine .here fun _ => .word ?_
      have simple := Recursion.simpleStmts_refuses (g := (rules bound).toRecursion) ht
        (Recursion.expression_refuses ht.foreign bound .conditional)
      split <;> first | exact simple | exact absurd ‹_› (ht.ne (by decide))
    · rw [ht]
      exact .fail

end SdkUsage.Grammar
