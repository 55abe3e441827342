/-
Types as JSON. A type is an object whose field `type` names its form, with
the parts of the form in fields of their own. An array with the name first
and then the parts is read as well. Fields a form does not have are ignored,
fields it has must be there once. Inside another type the form may also be
given by its number.
-/
import SdkUsage.Json.Reader
import SdkUsage.Ty

namespace SdkUsage.Ty

open SdkUsage.Json (Value)

/-- The names of the forms, in the order of types. -/
def formNames : List String :=
  ["moduleHandle", "clientFactory", "serviceClient", "serviceMethodRef", "serviceMethodInvocation",
   "functionSignature", "stringLiteral"]

/-- The number of the form a tag gives. -/
def formOf? (nested : Bool) : Value → Option Nat
  | .string name => formNames.findIdx? (· = name)
  | .number (some n) => if nested then some n else none
  | _ => none

/-- The parts of a value besides its tag: named, or in order. -/
inductive Parts where
  | named (fields : List (String × Value))
  | ordered (items : List Value)

/-- Tag and parts of a value. The tag is given once. -/
def split? : Value → Option (Value × Parts)
  | .object fields =>
    match fields.filter (·.1 = "type") with
    | [(_, tag)] => some (tag, .named (fields.filter (·.1 ≠ "type")))
    | _ => none
  | .array (tag :: items) => some (tag, .ordered items)
  | _ => none

/-- The one value of a field. -/
def field? (fields : List (String × Value)) (name : String) : Option Value :=
  match fields.filter (·.1 = name) with
  | [(_, value)] => some value
  | _ => none

/-- The values of the parts a form has. -/
def values? (names : List String) : Parts → Option (List Value)
  | .named fields => names.mapM (field? fields)
  | .ordered items => if items.length = names.length then some items else none

/-- One text. -/
def text? (build : String → Ty) : List Value → Option Ty
  | [.string a] => some (build a)
  | _ => none

/-- Two texts. -/
def texts? (build : String → String → Ty) : List Value → Option Ty
  | [.string a, .string b] => some (build a b)
  | _ => none

/-- Reads a type with functions nested at most `depth` deep. -/
def ofValueAt? : (depth : Nat) → (nested : Bool) → Value → Option Ty
  | 0, _, _ => none
  | depth + 1, nested, value => do
    let (tag, parts) ← split? value
    match ← formOf? nested tag with
    | 0 => (values? [] parts).map fun _ => moduleHandle
    | 1 => (values? [] parts).map fun _ => clientFactory
    | 2 => (values? ["service"] parts).bind (text? serviceClient)
    | 3 => (values? ["service", "method"] parts).bind (texts? methodRef)
    | 4 => (values? ["service", "method"] parts).bind (texts? invocation)
    | 5 =>
      match ← values? ["returns"] parts with
      | [inner] => (ofValueAt? depth true inner).map function
      | _ => none
    | 6 => (values? ["value"] parts).bind (text? stringLiteral)
    | _ => none

/-- Reads a type. A value that was read from text nests no deeper than the
reader allows. -/
def ofValue? (value : Value) : Option Ty := ofValueAt? (Json.maxDepth + 1) false value

/-- Reads a type from JSON text. -/
def ofJson? (text : String) : Option Ty := (Json.read? text).bind ofValue?

/-- The text of an object with string fields before others. -/
def objectText (form : String) (fields : List (String × String)) : String :=
  let field := fun (f : String × String) => "," ++ Json.writeString f.1 ++ ":" ++ f.2
  "\x7b\"type\":" ++ Json.writeString form ++ String.join (fields.map field) ++ "\x7d"

/-- The type as JSON text. -/
def toJson : Ty → String
  | moduleHandle => objectText "moduleHandle" []
  | clientFactory => objectText "clientFactory" []
  | serviceClient service => objectText "serviceClient" [("service", Json.writeString service)]
  | methodRef service method =>
    objectText "serviceMethodRef"
      [("service", Json.writeString service), ("method", Json.writeString method)]
  | invocation service method =>
    objectText "serviceMethodInvocation"
      [("service", Json.writeString service), ("method", Json.writeString method)]
  | function returns => objectText "functionSignature" [("returns", returns.toJson)]
  | stringLiteral value => objectText "stringLiteral" [("value", Json.writeString value)]

end SdkUsage.Ty
