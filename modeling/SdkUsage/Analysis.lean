/-
From a source to what it invokes: parse it, derive its scopes, infer types and
collect the invocations. An application is analyzed as if the framework called
its entry points.
-/
import SdkUsage.CallMap
import SdkUsage.EntryPoint
import SdkUsage.Grammar.Statement
import SdkUsage.Inference.Visit
import SdkUsage.Scope.Build

namespace SdkUsage

open SdkUsage.Tree

/-- Why a file gives no source. -/
inductive FileError where
  | missing
  | notText
  deriving DecidableEq

/-- The text of an error about a file. -/
def FileError.message (file : String) : FileError → String
  | missing => s!"Failed to read {file}. No such file or directory (os error 2)"
  | notText => s!"Failed to read {file}. stream did not contain valid UTF-8"

/-- The source in a file, given its bytes if it is there. -/
def Source.ofFile (file : String) : Option ByteArray → Except FileError Source
  | none => .error .missing
  | some bytes =>
    match String.fromUTF8? bytes with
    | some text => .ok { file, text }
    | none => .error .notText

/-- Why an analysis fails. -/
inductive AnalysisError where
  | unreadable (error : FileError)
  | malformed (error : SyntaxError)
  | inference (error : InferenceError)

namespace Analysis

/-- A parsed source, with calls of its entry points if it is an application. -/
def parse (config : Config) (application : Bool) (source : Source) :
    Except AnalysisError Module :=
  match SdkUsage.parse source with
  | .error error => .error (.malformed error)
  | .ok module =>
    .ok (if application then module.invokeEntryPoints config.routeMethod else module)

/-- What is known after one run over a module. -/
def infer (config : Config) (module : Module) : Except AnalysisError Inference.State :=
  let start := .start (.build module) module.expressions module.statements
  match Inference.analyzeModule config module start with
  | .ok _ state => .ok state
  | .error error _ => .error (.inference error)

end Analysis

/-- **The methods that a source invokes.** -/
def analyze (config : Config) (application : Bool) (source : Source) :
    Except AnalysisError CallMap := do
  let module ← Analysis.parse config application source
  let state ← Analysis.infer config module
  return .collect state.types module

/-- The methods that the source in a file invokes. -/
def analyzeContents (config : Config) (application : Bool) (file : String)
    (contents : Option ByteArray) : Except AnalysisError CallMap :=
  match Source.ofFile file contents with
  | .ok source => analyze config application source
  | .error error => .error (.unreadable error)

/-- The types of the names that the module binds or, given a name, that the
first scope of that name in the module binds. -/
def typesOfNames (config : Config) (source : Source) (scope : Option String) :
    Except AnalysisError (List (String × Ty)) := do
  let module ← Analysis.parse config false source
  let env := (← Analysis.infer config module).env
  let known := do
    match scope with
    | none => env.localTypes .module
    | some name => env.localTypes (← env.childNamespace .module name)
  match known with
  | .ok types => return types
  | .error error => throw (.inference (.scope error))

end SdkUsage
