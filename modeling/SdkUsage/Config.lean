/-
The settings of an analysis: how the SDK is called and how frameworks mark the
functions they call. As JSON a configuration is an object; missing fields take
their default and unknown ones are refused. An array of at most four values in
the order of the fields is read as well.
-/
import SdkUsage.Json.Reader

namespace SdkUsage

/-- The settings of an analysis. -/
structure Config where
  /-- The top-level module of the SDK. -/
  sdkModule : String := "boto3"
  /-- The member of that module that makes clients. -/
  clientFactory : String := "client"
  /-- The decorator that marks functions called by a framework. -/
  routeMethod : String := "route"
  /-- A call of a function that is being analyzed already has no type. Without
  this a program that recurses is analyzed to a fixed depth. -/
  recursionGuard : Bool := true
  deriving DecidableEq

namespace Config

open SdkUsage.Json (Value)

/-- The names of the fields, in order. -/
def fieldNames : List String := ["sdkModule", "clientFactory", "routeMethod", "recursionGuard"]

/-- Sets the field with a name, if the value is of its kind. -/
def set? (config : Config) (name : String) (value : Value) : Option Config :=
  match name with
  | "sdkModule" => value.string?.map fun s => { config with sdkModule := s }
  | "clientFactory" => value.string?.map fun s => { config with clientFactory := s }
  | "routeMethod" => value.string?.map fun s => { config with routeMethod := s }
  | "recursionGuard" => value.bool?.map fun b => { config with recursionGuard := b }
  | _ => none

/-- Sets fields one after another. -/
def setAll? (config : Config) (fields : List (String × Value)) : Option Config :=
  fields.foldlM (fun config field => config.set? field.1 field.2) config

/-- Reads a configuration from a JSON value. -/
def ofValue? : Value → Option Config
  | .object fields => if (fields.map (·.1)).Nodup then setAll? {} fields else none
  | .array items =>
    if items.length ≤ fieldNames.length then setAll? {} (fieldNames.zip items) else none
  | _ => none

/-- Reads a configuration from JSON text. -/
def ofJson? (text : String) : Option Config := (Json.read? text).bind ofValue?

/-- The configuration as JSON text, one field a line. -/
def toJson (config : Config) : String :=
  let field := fun (name text : String) => "  " ++ Json.writeString name ++ ": " ++ text
  "\x7b\n"
    ++ field "sdkModule" (Json.writeString config.sdkModule) ++ ",\n"
    ++ field "clientFactory" (Json.writeString config.clientFactory) ++ ",\n"
    ++ field "routeMethod" (Json.writeString config.routeMethod) ++ ",\n"
    ++ field "recursionGuard" (Json.writeBool config.recursionGuard) ++ "\n\x7d"

end Config

end SdkUsage
