/-
What can be wrong with a program text, and where. A cause is a value; its
wording is in `Cause.message`, and `SyntaxError.message?` shows it with the
line it is about.
-/
import SdkUsage.Span

namespace SdkUsage

namespace SyntaxError

/-- Why a text is refused. -/
inductive Cause where
  /-- A line is indented less than the block before it, but not to any open block. -/
  | unmatchedIndentation
  /-- A backslash between tokens is not the last character of its line. -/
  | brokenContinuation
  | invalidNumber
  | unterminatedString
  | invalidCharacter
  | invalidString
  | invalidEscape
  | invalidCodePoint
  | mixedStrings
  | tooDeep
  | expecting (text context : String)
  | expectingEndOfLine (context : String)
  | expectingIdentifier
  | unexpectedKeyword (text : String)
  | invalidSyntax
  | invalidAssignmentTarget
  | expectingBlock
  | unexpectedIndent
  | expectingModuleName
  | expectingHandler
  | expectingDefinition
  | expectingAsyncStatement
  /-- The grammar took more steps than the text has tokens. -/
  | stalled
  deriving DecidableEq

/-- The wording of a cause. -/
def Cause.message : Cause → String
  | .unmatchedIndentation => "unindent does not match any outer indentation level"
  | .brokenContinuation => "unexpected character after line continuation character"
  | .invalidNumber => "invalid number"
  | .unterminatedString => "unterminated string literal"
  | .invalidCharacter => "invalid character"
  | .invalidString => "invalid string literal"
  | .invalidEscape => "invalid escape sequence in string literal"
  | .invalidCodePoint => "invalid code point in string literal"
  | .mixedStrings => "cannot mix bytes and nonbytes literals"
  | .tooDeep => "expression is nested too deeply"
  | .expecting text context => s!"expecting `{text}` {context}"
  | .expectingEndOfLine context => s!"expecting end of line {context}"
  | .expectingIdentifier => "expecting identifier"
  | .unexpectedKeyword text => s!"unexpected keyword `{text}`"
  | .invalidSyntax => "invalid syntax"
  | .invalidAssignmentTarget => "cannot use assignment expression with this target"
  | .expectingBlock => "expected an indented block"
  | .unexpectedIndent => "unexpected indent"
  | .expectingModuleName => "expecting module name"
  | .expectingHandler => "expecting `except` or `finally` block"
  | .expectingDefinition => "expecting function or class definition after decorator"
  | .expectingAsyncStatement => "expecting `def`, `for` or `with` after `async`"
  | .stalled => "parsing does not advance"

end SyntaxError

/-- A cause at a position. -/
structure SyntaxError where
  line : Nat
  col : Nat
  cause : SyntaxError.Cause
  deriving DecidableEq

namespace SyntaxError

/-- A cause at the start of a span. -/
def atSpan (span : Span) (cause : Cause) : SyntaxError := ⟨span.line, span.col, cause⟩

/-- The error as text, with the line it is about. An error is returned with its
text; where there is none, the call that found the error does not return. -/
def message? (error : SyntaxError) (source : Source) : Option String :=
  source.message? error.line error.col "error" error.cause.message

end SyntaxError

end SdkUsage
