/-
Showing text unambiguously. Control characters, quotes and backslashes are
written with a backslash, and what cannot be shown by its code point in
braces.

There are two forms. `quote` writes a text between double quotes and escapes
every character that would attach to its neighbour. `escape` writes a text to
be embedded in other output: it escapes both kinds of quotes, and a character
that attaches to the one before it only in first place, where there is none.
-/
import SdkUsage.Text.Printable

namespace SdkUsage.Text

/-- Which characters an escaped form escapes besides those that cannot be shown. -/
structure EscapeRule where
  singleQuote : Bool
  doubleQuote : Bool
  graphemeExtend : Bool

/-- A code point in braces, in lower case hexadecimal without padding. -/
def codePointEscape (c : Char) : List Char :=
  ['\\', 'u', '\x7b'] ++ Nat.toDigits 16 c.toNat ++ ['\x7d']

/-- One character in escaped form. -/
def EscapeRule.char (rule : EscapeRule) (c : Char) : List Char :=
  if c = '\x00' then ['\\', '0']
  else if c = '\t' then ['\\', 't']
  else if c = '\r' then ['\\', 'r']
  else if c = '\n' then ['\\', 'n']
  else if c = '\\' then ['\\', '\\']
  else if c = '"' && rule.doubleQuote then ['\\', '"']
  else if c = '\'' && rule.singleQuote then ['\\', '\'']
  else if rule.graphemeExtend && extendsGrapheme c then codePointEscape c
  else if isPrintable c then [c]
  else codePointEscape c

/-- Inside double quotes a single quote stands for itself. -/
def EscapeRule.quoted : EscapeRule := ⟨false, true, true⟩

/-- The first character of an embedded text. -/
def EscapeRule.leading : EscapeRule := ⟨true, true, true⟩

/-- The other characters of an embedded text. -/
def EscapeRule.following : EscapeRule := ⟨true, true, false⟩

/-- A text between double quotes. -/
def quote (text : String) : String :=
  String.ofList ('"' :: text.toList.flatMap EscapeRule.quoted.char ++ ['"'])

/-- A text in escaped form, without quotes around it. -/
def escape : List Char → List Char
  | [] => []
  | c :: cs => EscapeRule.leading.char c ++ cs.flatMap EscapeRule.following.char

end SdkUsage.Text
