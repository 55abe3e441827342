/-
Reading JSON text strictly: nothing but one value and blanks around it, no
raw control characters in strings, no half of a surrogate pair alone, no
number too large for a double, and nesting at most `maxDepth` deep.

Readers take a text and give a value with the text behind it. Nesting is
bounded by the depth, and lists inside a value by the length of the text.
-/
import SdkUsage.Json.Value
import SdkUsage.Json.Decimal

namespace SdkUsage.Json

/-- How deep arrays and objects may be nested. -/
def maxDepth : Nat := 127

/-- A reader: the value at the front of a text, and the rest of the text. -/
abbrev Reader (α : Type) := List Char → Option (α × List Char)

/-- Whether a character may stand between tokens. -/
def isBlank (c : Char) : Bool := c = ' ' || c = '\n' || c = '\t' || c = '\r'

/-- The text after leading blanks. -/
def skipBlanks (text : List Char) : List Char := text.dropWhile isBlank

/-- Passes a word. -/
def expect? (word : List Char) (text : List Char) : Option (List Char) :=
  if word.isPrefixOf text then some (text.drop word.length) else none

/-! ## Strings -/

/-- The value of a digit of base sixteen. -/
def hexValue? (c : Char) : Option Nat :=
  if '0' ≤ c ∧ c ≤ '9' then some (c.toNat - '0'.toNat)
  else if 'a' ≤ c ∧ c ≤ 'f' then some (c.toNat - 'a'.toNat + 10)
  else if 'A' ≤ c ∧ c ≤ 'F' then some (c.toNat - 'A'.toNat + 10)
  else none

/-- Four digits of base sixteen. -/
def hex4? : Reader Nat
  | a :: b :: c :: d :: rest => do
    let a ← hexValue? a
    let b ← hexValue? b
    let c ← hexValue? c
    let d ← hexValue? d
    return (((a * 16 + b) * 16 + c) * 16 + d, rest)
  | _ => none

/-- The character of a `\u` escape, after the `u`. Characters beyond the first
plane are written as a pair of escapes. -/
def unicodeEscape? : Reader Char := fun text => do
  let (first, rest) ← hex4? text
  if 0xD800 ≤ first ∧ first < 0xDC00 then
    let rest ← expect? ['\\', 'u'] rest
    let (second, rest) ← hex4? rest
    if 0xDC00 ≤ second ∧ second < 0xE000 then
      return (Char.ofNat (0x10000 + (first - 0xD800) * 0x400 + (second - 0xDC00)), rest)
    else none
  else if 0xDC00 ≤ first ∧ first < 0xE000 then none
  else return (Char.ofNat first, rest)

/-- The character of an escape, after the backslash. -/
def escape? : Reader Char
  | [] => none
  | c :: rest =>
    if c = '"' ∨ c = '\\' ∨ c = '/' then some (c, rest)
    else if c = 'b' then some ('\x08', rest)
    else if c = 'f' then some ('\x0c', rest)
    else if c = 'n' then some ('\n', rest)
    else if c = 'r' then some ('\r', rest)
    else if c = 't' then some ('\t', rest)
    else if c = 'u' then unicodeEscape? rest
    else none

/-- The characters of a string up to its closing quote, at most `bound`. -/
def stringChars? : (bound : Nat) → Reader (List Char)
  | _, [] => none
  | 0, _ => none
  | bound + 1, c :: rest =>
    if c = '"' then some ([], rest)
    else if c = '\\' then do
      let (d, rest) ← escape? rest
      let (ds, rest) ← stringChars? bound rest
      return (d :: ds, rest)
    else if c.toNat < 32 then none
    else do
      let (ds, rest) ← stringChars? bound rest
      return (c :: ds, rest)

/-- A string after its opening quote. -/
def string? : Reader String := fun text => do
  let (chars, rest) ← stringChars? text.length text
  return (String.ofList chars, rest)

/-! ## Numbers -/

/-- The digits at the front of a text. -/
def digits (text : List Char) : List Char × List Char := text.span Char.isDigit

/-- At least one digit. -/
def digits? : Reader (List Char) := fun text =>
  match digits text with
  | ([], _) => none
  | found => some found

/-- The digits before the point. A leading zero stands alone. -/
def integerPart? : Reader (List Char) := fun text => do
  let (found, rest) ← digits? text
  if found.head? = some '0' ∧ 1 < found.length then none else return (found, rest)

/-- The digits after the point, none without a point. -/
def fractionPart? : Reader (List Char)
  | '.' :: rest => digits? rest
  | text => some ([], text)

/-- The exponent, zero without one. -/
def exponentPart? : Reader (Option Int)
  | c :: rest =>
    if c = 'e' ∨ c = 'E' then
      let (negative, rest) :=
        match rest with
        | '+' :: rest => (false, rest)
        | '-' :: rest => (true, rest)
        | _ => (false, rest)
      (digits? rest).map fun (found, rest) =>
        let size := (naturalOf found : Int)
        (some (if negative then -size else size), rest)
    else some (none, c :: rest)
  | [] => some (none, [])

/-- A number. -/
def number? : Reader Value := fun text => do
  let (negative, text) := if text.head? = some '-' then (true, text.drop 1) else (false, text)
  let (whole, text) ← integerPart? text
  let (fraction, text) ← fractionPart? text
  let (exponent, text) ← exponentPart? text
  let value := naturalOf whole
  if !negative && fraction.isEmpty && exponent.isNone && value < naturalLimit then
    return (.number (some value), text)
  else if (Decimal.ofDigits whole fraction (exponent.getD 0)).isFinite then
    return (.number none, text)
  else none

/-! ## Values -/

/-- The items of an array after the first opening or comma, at most `bound`. -/
def items? (value? : Reader Value) : (bound : Nat) → Reader (List Value)
  | 0, _ => none
  | bound + 1, text => do
    let (item, text) ← value? text
    match skipBlanks text with
    | ',' :: text =>
      let (items, text) ← items? value? bound text
      return (item :: items, text)
    | ']' :: text => return ([item], text)
    | _ => none

/-- A field of an object: its name and its value. -/
def field? (value? : Reader Value) : Reader (String × Value) := fun text =>
  match skipBlanks text with
  | '"' :: text => do
    let (name, text) ← string? text
    let text ← expect? [':'] (skipBlanks text)
    let (value, text) ← value? text
    return ((name, value), text)
  | _ => none

/-- The fields of an object after the opening or a comma, at most `bound`. -/
def fields? (value? : Reader Value) : (bound : Nat) → Reader (List (String × Value))
  | 0, _ => none
  | bound + 1, text => do
    let (field, text) ← field? value? text
    match skipBlanks text with
    | ',' :: text =>
      let (fields, text) ← fields? value? bound text
      return (field :: fields, text)
    | '\x7d' :: text => return ([field], text)
    | _ => none

/-- An array after its opening bracket. -/
def array? (value? : Reader Value) : Reader Value := fun text =>
  match skipBlanks text with
  | ']' :: text => some (.array [], text)
  | text => (items? value? text.length text).map fun (items, text) => (.array items, text)

/-- An object after its opening brace. -/
def object? (value? : Reader Value) : Reader Value := fun text =>
  match skipBlanks text with
  | '\x7d' :: text => some (.object [], text)
  | text => (fields? value? text.length text).map fun (fields, text) => (.object fields, text)

/-- A value that is no array or object. -/
def scalar? : Reader Value
  | '"' :: text => (string? text).map fun (value, text) => (.string value, text)
  | 'n' :: text => (expect? ['u', 'l', 'l'] text).map (.null, ·)
  | 't' :: text => (expect? ['r', 'u', 'e'] text).map (.bool true, ·)
  | 'f' :: text => (expect? ['a', 'l', 's', 'e'] text).map (.bool false, ·)
  | text => number? text

/-- A value with arrays and objects nested at most `depth` deep. -/
def value? : (depth : Nat) → Reader Value
  | 0, text =>
    match skipBlanks text with
    | '[' :: _ => none
    | '\x7b' :: _ => none
    | text => scalar? text
  | depth + 1, text =>
    match skipBlanks text with
    | '[' :: text => array? (value? depth) text
    | '\x7b' :: text => object? (value? depth) text
    | text => scalar? text

/-- The value a text consists of. -/
def read? (text : String) : Option Value := do
  let (value, rest) ← value? maxDepth text.toList
  if (skipBlanks rest).isEmpty then return value else none

end SdkUsage.Json
