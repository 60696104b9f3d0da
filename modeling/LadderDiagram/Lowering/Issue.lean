import LadderDiagram.Graph.Malformed

/-!
# Issues of an export

A warning tells of something that was left out of the body; a failure tells of a
rung that was left out as a whole. Rungs are counted from zero.
-/

namespace LadderDiagram

inductive Warning where
  /-- A pin or variable that is neither wired nor bound. -/
  | danglingReference (rung : Nat) (node reference : String)
  | unknownNodeKind (rung : Nat) (node : String)
  /-- An edge with an end that names no node. -/
  | danglingEdge (rung : Nat) (source target : String)
  | duplicateLocalId (rung : Nat) (localId : UInt64)
  deriving DecidableEq, Repr

def Warning.message : Warning → String
  | danglingReference rung node reference =>
    s!"rung {rung}: `{node}` reference `{reference}` has no upstream edge and no binding"
  | unknownNodeKind rung node => s!"rung {rung}: node `{node}` has an unknown kind and was skipped"
  | danglingEdge rung source target =>
    s!"rung {rung}: edge `{source}` -> `{target}` references a missing node"
  | duplicateLocalId rung localId =>
    s!"rung {rung}: local id {localId} is used by more than one node"

structure Failure where
  rung : Nat
  rungId : String
  cause : MalformedGraph
  deriving DecidableEq, Repr

def Failure.message (f : Failure) : String :=
  s!"rung {f.rung} (`{f.rungId}`) failed to export: {f.cause.message}"

end LadderDiagram
