/-
The types that inference tracks. Only values on the way from the SDK module to
a call of a service method have one: the module itself, the factory it has as a
member, a client that the factory makes for a service, a method of a client,
and the result of calling the method. Functions carry the type they return,
and string literals their value, so that both flow through names.
-/
import SdkUsage.Data.Key
import SdkUsage.Text.Escape

namespace SdkUsage

/-- A tracked type. -/
inductive Ty where
  | moduleHandle
  | clientFactory
  | serviceClient (service : String)
  | methodRef (service method : String)
  | invocation (service method : String)
  | function (returns : Ty)
  | stringLiteral (value : String)
  deriving DecidableEq

namespace Ty

/-- Service and method of an invocation. -/
def invocation? : Ty → Option (String × String)
  | invocation service method => some (service, method)
  | _ => none

/-- The value of a string literal. -/
def literal? : Ty → Option String
  | stringLiteral value => some value
  | _ => none

/-- The type as text. -/
def display : Ty → String
  | moduleHandle => "ModuleHandle"
  | clientFactory => "ClientFactory"
  | serviceClient service => s!"ServiceClient({service})"
  | methodRef service method => s!"ServiceMethodRef({service}, {method})"
  | invocation service method => s!"ServiceMethodInvocation({service}, {method})"
  | function returns => "FunctionSignature(" ++ returns.display ++ ")"
  | stringLiteral value => "StringLiteral(" ++ Text.quote value ++ ")"

/-- The place of a type's form in the order of types. -/
def formIndex : Ty → Nat
  | moduleHandle => 0
  | clientFactory => 1
  | serviceClient _ => 2
  | methodRef _ _ => 3
  | invocation _ _ => 4
  | function _ => 5
  | stringLiteral _ => 6

/-- Types are ordered by form, and types of one form by their parts. -/
def before : Ty → Ty → Bool
  | serviceClient a, serviceClient b => Key.lt a b
  | methodRef a m, methodRef b n => Key.lt (a, m) (b, n)
  | invocation a m, invocation b n => Key.lt (a, m) (b, n)
  | function a, function b => before a b
  | stringLiteral a, stringLiteral b => Key.lt a b
  | a, b => Key.lt a.formIndex b.formIndex

/-- Types in order. -/
def sort (types : List Ty) : List Ty := types.mergeSort fun a b => !before b a

end Ty

end SdkUsage
