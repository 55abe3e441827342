/-
JSON values and the text of JSON strings.

Objects keep their fields in the order in which they were written, also
fields with the same name, so that a reader of values can refuse them.
-/
namespace SdkUsage.Json

/-- A JSON value. Of a number it is only kept whether it is a natural number of
64 bits, and which. -/
inductive Value where
  | null
  | bool (value : Bool)
  | number (natural : Option Nat)
  | string (value : String)
  | array (items : List Value)
  | object (fields : List (String × Value))
  deriving Inhabited

/-- The text of a string value. -/
def Value.string? : Value → Option String
  | string value => some value
  | _ => none

/-- The truth value of a value. -/
def Value.bool? : Value → Option Bool
  | bool value => some value
  | _ => none

/-- Four digits of base sixteen for a control character. -/
def controlEscape (c : Char) : List Char :=
  ['\\', 'u', '0', '0', Nat.digitChar (c.toNat / 16), Nat.digitChar (c.toNat % 16)]

/-- A character inside a written string. -/
def writeChar (c : Char) : List Char :=
  if c = '"' then ['\\', '"']
  else if c = '\\' then ['\\', '\\']
  else if c = '\x08' then ['\\', 'b']
  else if c = '\x0c' then ['\\', 'f']
  else if c = '\n' then ['\\', 'n']
  else if c = '\r' then ['\\', 'r']
  else if c = '\t' then ['\\', 't']
  else if c.toNat < 32 then controlEscape c
  else [c]

/-- A string as JSON text. -/
def writeString (text : String) : String :=
  String.ofList ('"' :: text.toList.flatMap writeChar ++ ['"'])

/-- A truth value as JSON text. -/
def writeBool (value : Bool) : String := if value then "true" else "false"

end SdkUsage.Json
