import LadderDiagram.Graph.Malformed
import LadderDiagram.Graph.Topology

/-!
# What lies behind a marker

Markers are no elements, so whatever cites one has to cite the elements behind
it instead. An open marker stands for what feeds it; a close marker for what
feeds its serial side and what feeds its branch. `Topology.resolve` collects
these elements, each once, with the column of the marker through which the wire
to it is drawn, and lists the markers on the way.
-/

namespace LadderDiagram

/-- An element behind a marker, and the connector whose column the wire to it takes. -/
structure Source where
  node : Node
  column : Option Connector
  deriving DecidableEq

structure Resolution where
  sources : List Source
  /-- The markers on the way, in the order in which they are met. -/
  path : List Node
  deriving DecidableEq

namespace Source

/-- Keeps the first of the sources with each node id, given the ids met before. -/
def distinctFrom (seen : List String) : List Source → List Source
  | [] => []
  | s :: rest =>
    if s.node.id ∈ seen then distinctFrom seen rest
    else s :: distinctFrom (s.node.id :: seen) rest

def distinct (sources : List Source) : List Source := distinctFrom [] sources

/-- Draws the wires to all sources through one column. -/
def through (column : Connector) (sources : List Source) : List Source :=
  sources.map fun s => { s with column := some column }

end Source

namespace Resolution

/-- A node that is no marker stands for itself. -/
def direct (n : Node) : Resolution := ⟨[⟨n, none⟩], []⟩

/-- What an open marker stands for, left through its branch or not. -/
def behindOpen (opener : Node) (branch : Connector) (byBranch : Bool) (feed : Resolution) :
    Resolution where
  sources := if byBranch then Source.through branch feed.sources else feed.sources
  path := opener :: feed.path

def behindClose (close : Node) (branch : Connector) (serial parallel : Resolution) :
    Resolution where
  sources := Source.distinct (serial.sources ++ Source.through branch parallel.sources)
  path := close :: (serial.path ++ parallel.path)

end Resolution

namespace Topology

/-- Resolves what is behind `n`, left through the connector `leaving` if it is known.
Only markers whose ids are in `fresh` have not been met on the way. -/
def resolveFrom (t : Topology) (fresh : List String) (leaving : Option String) (n : Node) :
    Except MalformedGraph Resolution :=
  match n.kind with
  | .parallelOpen branch =>
    if _ : n.id ∈ fresh then
      match t.incoming n with
      | [w] => do
        let feed ← t.resolveFrom (without fresh n.id) (some w.edge.sourceHandle) w.source
        return .behindOpen n branch (leaving == some branch.id) feed
      | wires => .error (.markerCardinality n.id .serial wires.length)
    else .error (.markerCycle n.id)
  | .parallelClose branch =>
    if _ : n.id ∈ fresh then
      let (parallel, serial) := (t.incoming n).partition (·.edge.targetHandle == branch.id)
      match serial, parallel with
      | [s], [p] => do
        let serial ← t.resolveFrom (without fresh n.id) (some s.edge.sourceHandle) s.source
        let parallel ← t.resolveFrom (without fresh n.id) (some p.edge.sourceHandle) p.source
        return .behindClose n branch serial parallel
      | [_], parallel => .error (.markerCardinality n.id .parallel parallel.length)
      | serial, _ => .error (.markerCardinality n.id .serial serial.length)
    else .error (.markerCycle n.id)
  | _ => .ok (.direct n)
termination_by fresh.length
decreasing_by
  all_goals exact length_without_lt ‹_›

/-- What a node stands for, if it is a marker; any other node stands for itself. -/
def resolve (t : Topology) (n : Node) : Except MalformedGraph Resolution :=
  t.resolveFrom t.ids none n

/-- What feeds the far end of a wire that leaves `source`. -/
def trace (t : Topology) (e : Edge) (source : Node) : Except MalformedGraph Resolution :=
  t.resolveFrom t.ids (some e.sourceHandle) source

end Topology

end LadderDiagram
