import LadderDiagram.Graph.Resolution
import LadderDiagram.Lowering.Offset

/-!
# Connections of an input side

Every wire into a node or a block pin becomes one connection for each element
that feeds it: the element at its other end, or what lies behind it if that is a
marker. A connection is drawn straight, or in a step through the column of the
marker that it passes.
-/

namespace LadderDiagram

open Body (Connection)

/-- Elements that wires may cite: variables feed pins by expression, unknown kinds not at all. -/
def Node.isWireSource (n : Node) : Bool :=
  match n.kind with
  | .variableIn _ | .variableOut _ | .unknown => false
  | _ => true

structure RungContext where
  index : Nat
  topology : Topology
  offset : Offset

namespace RungContext

/-- The line of a wire between two points, by way of a column. -/
def route (cx : RungContext) (target source : Point) (column : Option Connector) : List Point :=
  let points := match column with
    | none => [target, source]
    | some c => [target, ⟨c.absolute.x, target.y⟩, ⟨c.absolute.x, source.y⟩, source]
  points.map cx.offset.apply

/-- The connection that cites `source`, left through `pin` if that is known. -/
def connection (cx : RungContext) (target : Point) (source : Source) (pin : Option String) :
    Connection :=
  let (formalParameter, start) := match source.node.kind, pin with
    | .block data, some pin =>
      (some pin, ((data.output? pin).map (·.absolute)).getD source.node.outputPoint)
    | _, _ => (none, source.node.outputPoint)
  { refLocalId := source.node.numericId
    formalParameter
    points := cx.route target start source.column }

/-- The connections that one wire stands for. -/
def connectionsOf (cx : RungContext) (target : Point) (w : Wire) :
    Except MalformedGraph (List Connection) :=
  if w.source.isWireSource then do
    let r ← cx.topology.trace w.edge w.source
    return (r.sources.filter (·.node.isWireSource)).map fun s =>
      let pin := if r.path.isEmpty then some w.edge.sourceHandle else s.node.output.map (·.id)
      cx.connection target s pin
  else .ok []

/-- The connections of all wires into a node, or into one of its connectors. -/
def collect (cx : RungContext) (n : Node) (connector : Option String) (target : Point) :
    Except MalformedGraph (List Connection) := do
  return (← (cx.topology.incoming n connector).mapM (cx.connectionsOf target)).flatten

def intoNode (cx : RungContext) (n : Node) : Except MalformedGraph (List Connection) :=
  cx.collect n none n.inputPoint

def intoPin (cx : RungContext) (block : Node) (pin : Connector) :
    Except MalformedGraph (List Connection) :=
  cx.collect block (some pin.id) pin.absolute

end RungContext

end LadderDiagram
