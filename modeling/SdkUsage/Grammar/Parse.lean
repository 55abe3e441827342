/-
The state of parsing and the steps all grammar rules are made of.

A parser holds one token of lookahead. A rule reads it, passes it with
`advance`, or fails; a failed rule leaves the parser where it failed, and the
parser can be used again. Rules that repeat or recurse take a number that
bounds how often; `many`, `repeated` and the rules that recurse stop with
`stalled` when it is used up, which does not happen when it exceeds the number
of tokens left, because every round passes a token.
-/
import SdkUsage.Token.Lexer
import SdkUsage.Tree.Stmt

namespace SdkUsage.Grammar

open SdkUsage.Tree

/-- The state of parsing. -/
structure Parser where
  lexer : Lexer
  /-- The token that comes next. -/
  token : Token
  /-- Where the token passed last stops. -/
  stop : Nat
  /-- Number of expressions so far, the index of the next one. -/
  expressions : Nat
  /-- Number of statements so far, the index of the next one. -/
  statements : Nat
  /-- How deep expressions are nested. -/
  depth : Nat

/-- A grammar rule. -/
abbrev Parse := EStateM SyntaxError Parser

/-- The parser at the start of a source. -/
def Parser.start (source : Source) : Except SyntaxError Parser :=
  match (Lexer.start source).next with
  | (.ok token, lexer) => .ok ⟨lexer, token, 0, 0, 0, 0⟩
  | (.error error, _) => .error error

/-- More than the number of tokens left. -/
def Parser.budget (parser : Parser) : Nat := parser.lexer.remaining + 4

/-! ## The next token -/

/-- The next token. -/
def token : Parse Token := return (← get).token

/-- The kind of the next token. -/
def kind : Parse TokenKind := return (← token).kind

/-- The word of the next token. -/
def word : Parse String := return (← token).word

/-- The span of the next token. -/
def here : Parse Span := return (← token).span

/-- Fails at a span. -/
def failAt {α : Type} (span : Span) (cause : SyntaxError.Cause) : Parse α :=
  throw (.atSpan span cause)

/-- Fails at the next token. -/
def fail {α : Type} (cause : SyntaxError.Cause) : Parse α := do failAt (← here) cause

/-- Passes the next token. -/
def advance : Parse Unit := fun parser =>
  match parser.lexer.next with
  | (.ok token, lexer) => .ok () { parser with lexer, token, stop := parser.token.span.stop }
  | (.error error, lexer) => .error error { parser with lexer, stop := parser.token.span.stop }

/-- Passes the next token if it is the given word, and tells whether it was. -/
def accept (text : String) : Parse Bool := do
  if (← word) = text then
    advance
    return true
  return false

/-- Passes the given word, or fails. -/
def expect (text context : String) : Parse Unit := do
  if (← word) = text then advance else fail (.expecting text context)

/-- Passes the end of a logical line, or fails. The end of the text is one. -/
def expectLineEnd (context : String) : Parse Unit := do
  match ← kind with
  | .newline => advance
  | .eof => return ()
  | _ => fail (.expectingEndOfLine context)

/-- A name that is not reserved. -/
def ident : Parse Ident := do
  let token ← token
  if token.kind ≠ .ident then fail .expectingIdentifier
  else if isKeyword token.text then fail (.unexpectedKeyword token.text)
  else
    advance
    return ⟨token.text, token.span⟩

/-! ## Sites -/

/-- The span from a start to the last token passed. -/
def spanSince (start : Span) : Parse Span :=
  return { start with stop := max (← get).stop start.start }

/-- The site of an expression that began at `start` and ends here. -/
def exprSite (start : Span) : Parse Site := do
  let span ← spanSince start
  let parser ← get
  set { parser with expressions := parser.expressions + 1 }
  return ⟨span, parser.expressions⟩

/-- The site of a statement that began at `start` and ends here. -/
def stmtSite (start : Span) : Parse Site := do
  let span ← spanSince start
  let parser ← get
  set { parser with statements := parser.statements + 1 }
  return ⟨span, parser.statements⟩

/-! ## Nesting and repetition -/

/-- How deep expressions may be nested. -/
def maxDepth : Nat := 32

/-- A rule one level deeper. -/
def nested {α : Type} (rule : Parse α) : Parse α := fun parser =>
  if maxDepth ≤ parser.depth then fail .tooDeep parser
  else
    match rule { parser with depth := parser.depth + 1 } with
    | .ok value parser => .ok value { parser with depth := parser.depth - 1 }
    | .error error parser => .error error { parser with depth := parser.depth - 1 }

/-- Fails because a bound on repetition is used up. -/
def stalled {α : Type} : Parse α := fail .stalled

/-- The values of a rule repeated until it gives none. -/
def many {α : Type} (rule : Parse (Option α)) : (bound : Nat) → Parse (List α)
  | 0 => stalled
  | bound + 1 => do
    match ← rule with
    | none => return []
    | some value => return value :: (← many rule bound)

/-- A value improved by a rule until the rule gives none. -/
def repeated {α : Type} (rule : α → Parse (Option α)) : (bound : Nat) → α → Parse α
  | 0, _ => stalled
  | bound + 1, value => do
    match ← rule value with
    | none => return value
    | some value => repeated rule bound value

/-- Further items, each after a separator. A separator may be last: after it
there is no item where `last` holds of the next token. -/
def following {α : Type} (separator : String) (last : Token → Bool) (item : Parse α)
    (bound : Nat) : Parse (List α) :=
  many (do
    if ← accept separator then
      if last (← token) then return none
      return some (← item)
    return none) bound

/-- Items with separators between them. -/
def separated {α : Type} (separator : String) (last : Token → Bool) (item : Parse α)
    (bound : Nat) : Parse (List α) := do
  let first ← item
  return first :: (← following separator last item bound)

/-- The word of a token is the given one. -/
def isWord (text : String) (token : Token) : Bool := token.word = text

end SdkUsage.Grammar
