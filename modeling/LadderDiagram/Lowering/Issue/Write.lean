import LadderDiagram.Json.Value
import LadderDiagram.Lowering.Issue

/-!
# Issues as documents

Warnings and failures with their kind and its fields.
-/

namespace LadderDiagram

open Json (Value)

/-- A document that names a kind and its fields. -/
def kindValue (kind : String) (fields : List (String × Value)) : Value :=
  .object (("kind", .text kind) :: fields)

def MalformedGraph.toValue : MalformedGraph → Value
  | markerCardinality marker side found =>
    kindValue "markerCardinality"
      [("marker", .text marker), ("side", .text side.name), ("found", .natural found)]
  | unmatchedClose close => kindValue "unmatchedClose" [("close", .text close)]
  | unclosedOpen opener => kindValue "unclosedOpen" [("open", .text opener)]
  | sharedClose close first second =>
    kindValue "sharedClose"
      [("close", .text close), ("first", .text first), ("second", .text second)]
  | markerCycle marker => kindValue "markerCycle" [("marker", .text marker)]

def Warning.toValue : Warning → Value
  | danglingReference rung node reference =>
    kindValue "danglingReference"
      [("rung", .natural rung), ("node", .text node), ("reference", .text reference)]
  | unknownNodeKind rung node =>
    kindValue "unknownNodeKind" [("rung", .natural rung), ("node", .text node)]
  | danglingEdge rung source target =>
    kindValue "danglingEdge"
      [("rung", .natural rung), ("from", .text source), ("to", .text target)]
  | duplicateLocalId rung localId =>
    kindValue "duplicateLocalId"
      [("rung", .natural rung), ("localId", .natural localId.toNat)]

def Failure.toValue (f : Failure) : Value :=
  .object [("rung", .natural f.rung), ("rungId", .text f.rungId), ("error", f.cause.toValue)]

end LadderDiagram
