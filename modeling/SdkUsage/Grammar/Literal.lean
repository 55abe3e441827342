/-
The value of a string token: its letters before the quote decide what kind of
string it is, and the text between the quotes is decoded unless the string is
raw.
-/
import SdkUsage.SyntaxError
import SdkUsage.Tree.Expr

namespace SdkUsage.Grammar

open SdkUsage.Tree

/-! ## Escape sequences -/

/-- Characters with a one letter escape. -/
def letterEscape? (c : Char) : Option Char :=
  if c = 'n' then some '\n'
  else if c = 't' then some '\t'
  else if c = 'r' then some '\r'
  else if c = 'a' then some '\x07'
  else if c = 'b' then some '\x08'
  else if c = 'f' then some '\x0c'
  else if c = 'v' then some '\x0b'
  else if c = '\\' ∨ c = '\'' ∨ c = '"' then some c
  else none

/-- Whether a character is a digit of base eight. -/
def isOctalDigit (c : Char) : Bool := '0' ≤ c && c ≤ '7'

/-- Whether a character is a digit of base sixteen. -/
def isHexDigit (c : Char) : Bool :=
  c.isDigit || ('a' ≤ c && c ≤ 'f') || ('A' ≤ c && c ≤ 'F')

/-- The value of a digit. -/
def digitValue (c : Char) : Nat :=
  if c.isDigit then c.toNat - '0'.toNat
  else if 'a' ≤ c then c.toNat - 'a'.toNat + 10
  else c.toNat - 'A'.toNat + 10

/-- The value of a number written in a base. -/
def digitsValue (base : Nat) (digits : List Char) : Nat :=
  digits.foldl (fun value c => base * value + digitValue c) 0

/-- The character with a code point, if there is one. -/
def charOf? (code : Nat) : Option Char :=
  if code.isValidChar then some (Char.ofNat code) else none

/-- What an escape sequence stands for, and how many characters after the
backslash it has. -/
structure Escape where
  text : List Char
  used : Nat

/-- A code point written with exactly `count` digits of base sixteen. -/
def codePoint (count : Nat) (rest : List Char) : Except SyntaxError.Cause Escape :=
  let digits := rest.take count
  if digits.length = count ∧ digits.all isHexDigit then
    match charOf? (digitsValue 16 digits) with
    | some c => .ok ⟨[c], count + 1⟩
    | none => .error .invalidCodePoint
  else .error .invalidEscape

/-- The escape sequence at the front of the text after a backslash. An escaped
line end stands for nothing, and an unknown sequence for itself. -/
def escapeAt (rest : List Char) : Except SyntaxError.Cause Escape :=
  match rest with
  | [] => .ok ⟨['\\'], 0⟩
  | c :: cs =>
    if c = '\n' then .ok ⟨[], 1⟩
    else if c = '\r' then .ok ⟨[], if cs.head? = some '\n' then 2 else 1⟩
    else
      match letterEscape? c with
      | some d => .ok ⟨[d], 1⟩
      | none =>
        if isOctalDigit c then
          let digits := (rest.take 3).takeWhile isOctalDigit
          .ok ⟨[Char.ofNat (digitsValue 8 digits)], digits.length⟩
        else if c = 'x' then codePoint 2 cs
        else if c = 'u' then codePoint 4 cs
        else if c = 'U' then codePoint 8 cs
        else .ok ⟨['\\', c], 1⟩

/-- Decodes a text after passing `skip` characters of it. -/
def decodeFrom : (skip : Nat) → List Char → Except SyntaxError.Cause (List Char)
  | _, [] => .ok []
  | skip + 1, _ :: cs => decodeFrom skip cs
  | 0, c :: cs =>
    if c = '\\' then
      match escapeAt cs with
      | .error cause => .error cause
      | .ok escape => (decodeFrom escape.used cs).map (escape.text ++ ·)
    else (decodeFrom 0 cs).map (c :: ·)

/-- Replaces the escape sequences of a text. -/
def decode (text : List Char) : Except SyntaxError.Cause (List Char) := decodeFrom 0 text

/-! ## Literals -/

/-- Whether a character opens or closes a string. -/
def isQuote (c : Char) : Bool := c = '"' || c = '\''

/-- The kind of a string with the given letters before its quotes. -/
def kindOf (letters : List Char) : StrKind :=
  if letters.contains 'f' then .formatted
  else if letters.contains 'b' then .bytes
  else .plain

/-- Number of quotes on each side of a quoted text. -/
def quoteLength (quoted : List Char) : Nat :=
  if 6 ≤ quoted.length
      && (['"', '"', '"'].isPrefixOf quoted || ['\'', '\'', '\''].isPrefixOf quoted) then 3
  else 1

/-- The text between the quotes. -/
def unquoted (quoted : List Char) : List Char :=
  let n := quoteLength quoted
  (quoted.drop n).take (quoted.length - 2 * n)

/-- Value and kind of a string token. -/
def literal (text : List Char) : Except SyntaxError.Cause (List Char × StrKind) :=
  let letters := (text.takeWhile (! isQuote ·)).map Char.toLower
  let quoted := text.dropWhile (! isQuote ·)
  if quoted.length < 2 * quoteLength quoted then .error .invalidString
  else if letters.contains 'r' then .ok (unquoted quoted, kindOf letters)
  else (decode (unquoted quoted)).map (·, kindOf letters)

end SdkUsage.Grammar
