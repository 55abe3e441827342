/-
Cutting a program text into tokens, one at a time.

A lexer is a position in the text together with what the layout rules need to
remember: the widths of the open blocks, how many brackets are open, and
whether the current logical line has tokens. `Lexer.next` gives the next token
or an error, and the lexer after it; a lexer can be asked again after an
error, and at the end of the text it gives the end token for ever.

`scan` is one attempt. It gives nothing when it only passed a line that holds
no tokens, and is then repeated on a shorter rest.
-/
import SdkUsage.SyntaxError
import SdkUsage.Token.Cursor

namespace SdkUsage

/-- The state between two tokens. -/
structure Lexer where
  cursor : Cursor
  /-- Widths of the open blocks, innermost first. -/
  blocks : List Nat
  /-- Tokens found but not yet given. -/
  pending : List Token
  /-- Number of open brackets; inside them lines are joined. -/
  depth : Nat
  /-- The position is at the start of a line whose indentation is not read yet. -/
  lineStart : Bool
  /-- The logical line has tokens and needs a closing newline token. -/
  lineOpen : Bool

namespace Lexer

/-- The lexer at the start of a source. -/
def start (source : Source) : Lexer :=
  ⟨Cursor.start source.chars, [], [], 0, true, false⟩

/-- Width of the innermost open block. -/
def width (lexer : Lexer) : Nat := lexer.blocks.headD 0

/-- What one scan gives: a token or an error, or nothing. -/
abbrev Scan := Option (Except SyntaxError Token) × Lexer

/-- A token that covers no text, at the position. -/
def layoutToken (lexer : Lexer) (kind : TokenKind) : Token := ⟨kind, "", lexer.cursor.here⟩

/-- A token that covers the text passed since `first`. -/
def token (kind : TokenKind) (first last : Cursor) : Token :=
  ⟨kind, String.ofList (Text.takeBytes (last.offset - first.offset) first.rest),
    last.spanFrom first⟩

/-! ## Layout -/

/-- Compares the indentation of a line with the open blocks: a wider line opens
a block, a narrower one closes blocks. The tokens for it become pending. -/
def indentTo (width : Nat) (lexer : Lexer) : Option SyntaxError × Lexer :=
  if lexer.width < width then
    (none, { lexer with
      blocks := width :: lexer.blocks
      pending := lexer.pending ++ [lexer.layoutToken .indent] })
  else
    let closed := lexer.blocks.takeWhile (width < ·)
    let lexer := { lexer with
      blocks := lexer.blocks.dropWhile (width < ·)
      pending := lexer.pending ++ closed.map fun _ => lexer.layoutToken .dedent }
    if lexer.width = width then (none, lexer)
    else (some (.atSpan lexer.cursor.here .unmatchedIndentation), lexer)

/-- At the end of the text: closes the line and all blocks, and gives the first
of the tokens for it. -/
def finish (lexer : Lexer) : Scan :=
  let closing := (if lexer.lineOpen then [lexer.layoutToken .newline] else [])
    ++ lexer.blocks.map fun _ => lexer.layoutToken .dedent
  let closed := { lexer with blocks := [], lineOpen := false }
  match closing with
  | [] => (some (.ok (lexer.layoutToken .eof)), closed)
  | token :: rest =>
    (some (.ok token), { closed with pending := rest ++ [lexer.layoutToken .eof] })

/-! ## Tokens with text -/

/-- Reads a string whose token starts at `first`, from its opening quote on. -/
def scanString (first : Cursor) (lexer : Lexer) : Scan :=
  let (closed, last) := lexer.cursor.readString
  let lexer := { lexer with cursor := last }
  if closed then (some (.ok (token .string first last)), lexer)
  else (some (.error (.atSpan first.here .unterminatedString)), lexer)

/-- Reads a name, or a string that starts with letters. -/
def scanWord (lexer : Lexer) : Scan :=
  let first := lexer.cursor
  let word := Cursor.wordAt first.rest
  let last := first.advance word.length
  let lexer := { lexer with cursor := last }
  if (last.peek = '"' || last.peek = '\'') && opensString word then scanString first lexer
  else (some (.ok ⟨.ident, String.ofList word, last.spanFrom first⟩), lexer)

/-- Reads a number. -/
def scanNumber (lexer : Lexer) : Scan :=
  let first := lexer.cursor
  let number := Cursor.numberAt first.rest
  let last := first.advance number.length
  let lexer := { lexer with cursor := last }
  if Cursor.isNumber number then
    (some (.ok ⟨.number, String.ofList number, last.spanFrom first⟩), lexer)
  else (some (.error (.atSpan first.here .invalidNumber)), lexer)

/-- Number of open brackets after a symbol. -/
def depthAfter (symbol : List Char) (depth : Nat) : Nat :=
  if symbol = ['('] ∨ symbol = ['['] ∨ symbol = ['\x7b'] then depth + 1
  else if symbol = [')'] ∨ symbol = [']'] ∨ symbol = ['\x7d'] then depth - 1
  else depth

/-- Reads a symbol. A character that starts none is not passed. -/
def scanSymbol (lexer : Lexer) : Scan :=
  let first := lexer.cursor
  match symbolAt? first.rest with
  | none => (some (.error (.atSpan first.here .invalidCharacter)), lexer)
  | some symbol =>
    let last := first.advance symbol.length
    (some (.ok ⟨.symbol, String.ofList symbol, last.spanFrom first⟩),
      { lexer with cursor := last, depth := depthAfter symbol lexer.depth })

/-- Reads the end of a line. A line without tokens gives nothing. -/
def scanLineEnd (lexer : Lexer) : Scan :=
  let first := lexer.cursor
  let last := first.nextLine
  let next := { lexer with cursor := last, lineStart := true }
  if lexer.lineOpen then (some (.ok ⟨.newline, "\n", last.spanFrom first⟩), next)
  else (none, next)

/-- Reads the token that starts at the position. -/
def scanToken (lexer : Lexer) : Scan :=
  match lexer.cursor.rest with
  | [] => lexer.finish
  | c :: cs =>
    if c = '\n' then lexer.scanLineEnd
    else if c = '"' ∨ c = '\'' then lexer.scanString lexer.cursor
    else if c.isDigit || (c = '.' && (cs.headD ' ').isDigit) then lexer.scanNumber
    else if Cursor.isWordStart c then lexer.scanWord
    else lexer.scanSymbol

/-- Reads a token after the indentation of its line was dealt with. -/
def scanInLine (lexer : Lexer) : Scan :=
  let (joined, cursor) := lexer.cursor.skipBlanks (0 < lexer.depth)
  let lexer := { lexer with cursor }
  if joined then lexer.scanToken
  else (some (.error (.atSpan cursor.here .brokenContinuation)), lexer)

/-- Gives a pending token, else continues with `other`. -/
def givePending (lexer : Lexer) (other : Lexer → Scan) : Scan :=
  match lexer.pending with
  | token :: rest => (some (.ok token), { lexer with pending := rest })
  | [] => other lexer

/-- Reads the indentation of a line and then its first token. -/
def scanAtLineStart (lexer : Lexer) : Scan :=
  let (width, cursor) := lexer.cursor.readIndentation
  let lexer := { lexer with cursor, lineStart := false }
  match width with
  | none => lexer.finish
  | some width =>
    match lexer.indentTo width with
    | (some error, lexer) => (some (.error error), lexer)
    | (none, lexer) => lexer.givePending scanInLine

/-- One attempt at the next token. -/
def scan (lexer : Lexer) : Scan :=
  lexer.givePending fun lexer =>
    if lexer.lineStart && lexer.depth = 0 then lexer.scanAtLineStart else lexer.scanInLine

/-- Scans until there is a token or an error, passing at most `lines` lines
that hold no tokens. -/
def scanLines : Nat → Lexer → Except SyntaxError Token × Lexer
  | 0, lexer => (.ok (lexer.layoutToken .eof), lexer)
  | lines + 1, lexer =>
    match lexer.scan with
    | (some result, lexer) => (result, lexer)
    | (none, lexer) => scanLines lines lexer

/-- Remembers whether the logical line has tokens after giving one. -/
def noteToken (token : Token) (lexer : Lexer) : Lexer :=
  match token.kind with
  | .newline => { lexer with lineOpen := false }
  | .indent | .dedent | .eof => lexer
  | _ => { lexer with lineOpen := true }

/-- The next token or error, and the lexer after it. -/
def next (lexer : Lexer) : Except SyntaxError Token × Lexer :=
  let (result, lexer) :=
    match lexer.scan with
    | (some result, lexer) => (result, lexer)
    | (none, lexer) => scanLines (lexer.cursor.rest.length + 1) lexer
  match result with
  | .ok token => (.ok token, lexer.noteToken token)
  | .error error => (.error error, lexer)

/-- Bounds the number of tokens the lexer can still give before the end token. -/
def remaining (lexer : Lexer) : Nat :=
  2 * lexer.cursor.rest.length + lexer.pending.length + lexer.blocks.length
    + (if lexer.lineOpen then 1 else 0)

end Lexer

end SdkUsage
