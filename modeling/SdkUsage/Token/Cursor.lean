/-
The reading position in a program text: what is left of it, and where that
is, as byte offset, line and column.

The scanners in this module each pass over one kind of text. They recurse on
what is left, so they end, and what they return is a later position in the
same text.
-/
import SdkUsage.Text.Letter
import SdkUsage.Token.Basic

namespace SdkUsage

/-- A reading position. -/
structure Cursor where
  rest : List Char
  offset : Nat
  line : Nat
  col : Nat

namespace Cursor

/-- The start of a text. A NUL character ends the text. -/
def start (text : List Char) : Cursor := ⟨text.takeWhile (· ≠ '\x00'), 0, 1, 1⟩

/-- The next character, NUL at the end. -/
def peek (cursor : Cursor) : Char := cursor.rest.headD '\x00'

/-- Passes one character that takes one column. -/
def step (cursor : Cursor) : Cursor :=
  match cursor.rest with
  | [] => cursor
  | c :: cs => ⟨cs, cursor.offset + c.utf8Size, cursor.line, cursor.col + 1⟩

/-- Passes `n` characters that take one column each. -/
def advance : Nat → Cursor → Cursor
  | 0, cursor => cursor
  | n + 1, cursor => advance n cursor.step

/-- Passes a line feed. -/
def nextLine (cursor : Cursor) : Cursor :=
  match cursor.rest with
  | [] => cursor
  | c :: cs => ⟨cs, cursor.offset + c.utf8Size, cursor.line + 1, 1⟩

/-- The span from an earlier position to this one. -/
def spanFrom (cursor first : Cursor) : Span :=
  ⟨first.line, first.col, first.offset, cursor.offset⟩

/-- The empty span at a position. -/
def here (cursor : Cursor) : Span := cursor.spanFrom cursor

/-- Columns a tab takes. -/
def tabColumns : Nat := 4

/-- Indentation stops lie this many columns apart. -/
def tabStop : Nat := 8

/-! ## Layout -/

/-- Passes blank lines, comment lines and the indentation of the first line
that holds a token, and tells how wide that is; `none` at the end of the text.
A tab goes to the next tab stop, and a form feed or a carriage return starts
the count again. -/
def indentation (width : Nat) (comment : Bool) (rest : List Char) (offset line col : Nat) :
    Option Nat × Cursor :=
  match rest with
  | [] => (none, ⟨[], offset, line, col⟩)
  | c :: cs =>
    if c = '\n' then indentation 0 false cs (offset + 1) (line + 1) 1
    else if comment then indentation 0 true cs (offset + c.utf8Size) line (col + 1)
    else if c = ' ' then indentation (width + 1) false cs (offset + 1) line (col + 1)
    else if c = '\t' then
      indentation ((width / tabStop + 1) * tabStop) false cs (offset + 1) line (col + tabColumns)
    else if c = '\x0c' then indentation 0 false cs (offset + 1) line (col + 1)
    else if c = '#' then indentation 0 true cs (offset + 1) line (col + 1)
    else if c = '\r' then indentation 0 false cs (offset + 1) line col
    else (some width, ⟨c :: cs, offset, line, col⟩)

/-- Passes the indentation at the start of a line. -/
def readIndentation (cursor : Cursor) : Option Nat × Cursor :=
  indentation 0 false cursor.rest cursor.offset cursor.line cursor.col

/-- Passes blanks, comments and line continuations, and line feeds too when
`joined` holds. It stops with `false` at a backslash that does not end its
line. -/
def blanks (joined comment : Bool) (rest : List Char) (offset line col : Nat) : Bool × Cursor :=
  match rest with
  | [] => (true, ⟨[], offset, line, col⟩)
  | c :: cs =>
    if c = '\n' then
      if joined then blanks joined false cs (offset + 1) (line + 1) 1
      else (true, ⟨c :: cs, offset, line, col⟩)
    else if comment then blanks joined true cs (offset + c.utf8Size) line (col + 1)
    else if c = ' ' ∨ c = '\x0c' then blanks joined false cs (offset + 1) line (col + 1)
    else if c = '\t' then blanks joined false cs (offset + 1) line (col + tabColumns)
    else if c = '\r' then blanks joined false cs (offset + 1) line col
    else if c = '#' then blanks joined true cs (offset + 1) line (col + 1)
    else if c = '\\' then
      match cs with
      | '\n' :: cs => blanks joined false cs (offset + 2) (line + 1) 1
      | '\r' :: '\n' :: cs => blanks joined false cs (offset + 3) (line + 1) 1
      | _ => (false, ⟨c :: cs, offset, line, col⟩)
    else (true, ⟨c :: cs, offset, line, col⟩)

/-- Passes what may stand between two tokens. -/
def skipBlanks (joined : Bool) (cursor : Cursor) : Bool × Cursor :=
  blanks joined false cursor.rest cursor.offset cursor.line cursor.col

/-! ## Words -/

/-- A character of a name after the first. -/
def isWordChar (c : Char) : Bool := Text.isAlphanumeric c || c = '_'

/-- A character that can start a name. -/
def isWordStart (c : Char) : Bool := Text.isAlphabetic c || c = '_'

/-- The name at the front of a text. -/
def wordAt (text : List Char) : List Char := text.takeWhile isWordChar

/-- Whether a number is written in hexadecimal, where `e` is a digit. -/
def isHexadecimal : List Char → Bool
  | '0' :: 'x' :: _ => true
  | '0' :: 'X' :: _ => true
  | _ => false

/-- The longest run of letters, digits, underscores and points, with signs
after the exponent mark of a number that is not hexadecimal. -/
def numberRun (hexadecimal : Bool) (previous : Char) : List Char → List Char
  | [] => []
  | c :: cs =>
    let sign := (c = '+' || c = '-') && (previous = 'e' || previous = 'E') && !hexadecimal
    if c.isAlphanum || c = '_' || c = '.' || sign then c :: numberRun hexadecimal c cs else []

/-- The number at the front of a text. -/
def numberAt (text : List Char) : List Char := numberRun (isHexadecimal text) ' ' text

/-- A number has at most one point and does not end in an underscore. -/
def isNumber (text : List Char) : Bool :=
  text.count '.' ≤ 1 && text.getLast? != some '_'

/-! ## Strings -/

/-- Passes the inside of a string and its closing quotes. It stops with `false`
where the string is not closed: at the end of the text, or at a line feed that
is neither escaped nor in a string with triple quotes. -/
def stringBody (quote : Char) (triple : Bool) (rest : List Char) (offset line col : Nat) :
    Bool × Cursor :=
  match rest with
  | [] => (false, ⟨[], offset, line, col⟩)
  | c :: cs =>
    if c = '\\' then
      match cs with
      | [] => (false, ⟨[], offset + 1, line, col + 1⟩)
      | d :: cs =>
        if d = '\n' then stringBody quote triple cs (offset + 2) (line + 1) 1
        else stringBody quote triple cs (offset + 1 + d.utf8Size) line (col + 2)
    else if c = '\n' then
      if triple then stringBody quote triple cs (offset + 1) (line + 1) 1
      else (false, ⟨c :: cs, offset, line, col⟩)
    else if c = quote then
      if !triple then (true, ⟨cs, offset + c.utf8Size, line, col + 1⟩)
      else if [quote, quote].isPrefixOf cs then
        (true, ⟨cs.drop 2, offset + 3 * c.utf8Size, line, col + 3⟩)
      else stringBody quote triple cs (offset + c.utf8Size) line (col + 1)
    else if c = '\t' then stringBody quote triple cs (offset + 1) line (col + tabColumns)
    else stringBody quote triple cs (offset + c.utf8Size) line (col + 1)

/-- Whether three quotes stand at the front of a text. -/
def isTriple : List Char → Bool
  | a :: b :: c :: _ => a = b && a = c
  | _ => false

/-- Passes a string from its opening quote on. -/
def readString (cursor : Cursor) : Bool × Cursor :=
  let quote := cursor.peek
  let triple := isTriple cursor.rest
  let inside := cursor.advance (if triple then 3 else 1)
  stringBody quote triple inside.rest inside.offset inside.line inside.col

end Cursor

end SdkUsage
