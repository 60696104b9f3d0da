import LadderDiagram.Graph.Malformed
import LadderDiagram.Graph.Topology

/-!
# Pairs of markers

The branch of an open marker is walked forward, one wire at a time, until it
lands on the branch connector of a close marker. Groups inside the branch are
stepped over on their serial side. `Topology.pairs` gives every open marker the
close marker its branch ends on, each close marker to exactly one.
-/

namespace LadderDiagram

/-- An open marker and the close marker on which its branch ends. -/
structure MarkerPair where
  opener : Node
  close : Node
  deriving DecidableEq

namespace Wire

/-- The wire brings a branch to the close marker that ends it. -/
def endsBranch (w : Wire) : Bool :=
  match w.target.kind with
  | .parallelClose branch => w.edge.targetHandle == branch.id
  | _ => false

end Wire

namespace Topology

/-- The wires along which logic leaves a connector; variables at a block's pins are no part of
it. -/
def forward (t : Topology) (n : Node) (connector : String) : List Wire :=
  (t.outgoing n connector).filter fun w => !w.target.kind.isVariable

/-- Walks on along `next` over nodes whose ids are still in `fresh`, to the end of the branch. -/
def branchEnd (t : Topology) (opener : Node) (fresh : List String) (next : List Wire) :
    Except MalformedGraph Node :=
  match next with
  | [w] =>
    if _ : w.target.id ∈ fresh then
      if w.endsBranch then .ok w.target
      else
        match w.target.output with
        | some out =>
          t.branchEnd opener (without fresh w.target.id) (t.forward w.target out.id)
        | none => .error (.unclosedOpen opener.id)
    else .error (.markerCycle opener.id)
  | _ => .error (.unclosedOpen opener.id)
termination_by fresh.length
decreasing_by exact length_without_lt ‹_›

/-- Pairs the open markers among nodes, given the pairs made before. -/
def pairFrom (t : Topology) (made : List MarkerPair) :
    List Node → Except MalformedGraph (List MarkerPair)
  | [] => .ok made
  | n :: rest =>
    match n.kind with
    | .parallelOpen branch => do
      let close ← t.branchEnd n t.ids (t.forward n branch.id)
      match made.find? (·.close.id == close.id) with
      | some pair => throw (.sharedClose close.id pair.opener.id n.id)
      | none => t.pairFrom (made ++ [⟨n, close⟩]) rest
    | _ => t.pairFrom made rest

/-- All pairs of markers, in the order of the open ones. -/
def pairs (t : Topology) : Except MalformedGraph (List MarkerPair) := do
  let made ← t.pairFrom [] t.rung.nodes
  match t.rung.nodes.find? fun n => n.isClose && !made.any (·.close.id == n.id) with
  | some close => throw (.unmatchedClose close.id)
  | none => return made

end Topology

end LadderDiagram
