/-!
# Broken parallel groups

The ways in which the markers of a rung fail to form parallel groups.
-/

namespace LadderDiagram

/-- A side on which wires enter a marker. -/
inductive MarkerSide where
  | serial
  | parallel
  deriving DecidableEq, Repr

def MarkerSide.name : MarkerSide → String
  | serial => "serial"
  | parallel => "parallel"

inductive MalformedGraph where
  /-- A side of a marker has some other number of wires than one. -/
  | markerCardinality (marker : String) (side : MarkerSide) (found : Nat)
  | unmatchedClose (close : String)
  | unclosedOpen (opener : String)
  /-- Two branches end on one close marker. -/
  | sharedClose (close first second : String)
  | markerCycle (marker : String)
  deriving DecidableEq, Repr

def MalformedGraph.message : MalformedGraph → String
  | markerCardinality marker side found =>
    s!"parallel marker `{marker}` expects exactly one {side.name} incoming edge, found {found}"
  | unmatchedClose close => s!"parallel close `{close}` has no matching parallel open"
  | unclosedOpen opener => s!"parallel open `{opener}` is never closed"
  | sharedClose close first second =>
    s!"parallel close `{close}` is claimed by both `{first}` and `{second}`"
  | markerCycle marker =>
    s!"parallel marker `{marker}` is reached again while walking its own chain"

end LadderDiagram
