/-
The result of an analysis: which methods of which services a program invokes,
both in order and without repetition.
-/
import SdkUsage.Annotation
import SdkUsage.Data.SortedMap
import SdkUsage.Tree.Walk

namespace SdkUsage

open SdkUsage.Tree

/-- A set of texts, in order. -/
abbrev SortedSet := SortedMap String Unit

/-- The methods that are invoked, by service. -/
abbrev CallMap := SortedMap String SortedSet

namespace CallMap

/-- Adds a method of a service. -/
def add (calls : CallMap) (service method : String) : CallMap :=
  calls.insert service (((calls.get? service).getD ∅).insert method ())

/-- The methods of a service. -/
def methods (calls : CallMap) (service : String) : List String :=
  ((calls.get? service).getD ∅).keys

/-- Adds what a node is known to invoke. -/
def addNode (types : Annotations) (calls : CallMap) (node : Node) : CallMap :=
  match (types.ofNode? node).bind Ty.invocation? with
  | some (service, method) => calls.add service method
  | none => calls

/-- **What the nodes of a module are known to invoke.** -/
def collect (types : Annotations) (module : Module) : CallMap :=
  module.nodes.foldl (addNode types) ∅

end CallMap

end SdkUsage
