import LadderDiagram.Json.Value
import LadderDiagram.Snapshot.Read

/-!
# Writing snapshots

Programs as documents, every field written, in the order in which it is declared.
-/

namespace LadderDiagram

open Json (Value)

def variantName {α : Type} [DecidableEq α] (names : List (String × α)) (a : α) : String :=
  ((names.find? (·.2 = a)).map Prod.fst).getD ""

def Point.toValue (p : Point) : Value := .object [("x", .real p.x), ("y", .real p.y)]

def Connector.toValue (c : Connector) : Value :=
  .object [("id", .text c.id), ("relPosition", c.relative.toValue),
    ("glbPosition", c.absolute.toValue)]

namespace NodeKind

def fieldValues : NodeKind → List (String × Value)
  | leftRail | rightRail | unknown => []
  | contact operand variant =>
    [("variable", .text operand), ("variant", .text (variantName ContactVariant.names variant))]
  | coil operand variant =>
    [("variable", .text operand), ("variant", .text (variantName CoilVariant.names variant))]
  | block b =>
    [("typeName", .text b.typeName), ("instanceName", .ofOption .text b.instanceName),
      ("executionOrder", .natural b.executionOrder.toNat),
      ("inputHandles", .list (b.inputs.map Connector.toValue)),
      ("outputHandles", .list (b.outputs.map Connector.toValue))]
  | variableIn v | variableOut v =>
    [("name", .text v.name), ("executionOrder", .natural v.executionOrder.toNat)]
  | parallelOpen branch => [("parallelOutput", branch.toValue)]
  | parallelClose branch => [("parallelInput", branch.toValue)]

def toValue (k : NodeKind) : Value := .object (("type", .text k.tag) :: k.fieldValues)

end NodeKind

def Node.toValue (n : Node) : Value :=
  .object [("id", .text n.id), ("numericId", .natural n.numericId.toNat),
    ("position", n.position.toValue), ("width", .real n.width), ("height", .real n.height),
    ("inputConnector", .ofOption Connector.toValue n.input),
    ("outputConnector", .ofOption Connector.toValue n.output), ("kind", n.kind.toValue)]

def Edge.toValue (e : Edge) : Value :=
  .object [("source", .text e.source), ("sourceHandle", .text e.sourceHandle),
    ("target", .text e.target), ("targetHandle", .text e.targetHandle)]

def Binding.toValue (b : Binding) : Value :=
  .object [("variable", .text b.variableId), ("block", .text b.blockId),
    ("handle", .text b.handle)]

def Rung.toValue (r : Rung) : Value :=
  .object [("id", .text r.id), ("nodes", .list (r.nodes.map Node.toValue)),
    ("edges", .list (r.edges.map Edge.toValue)),
    ("bindings", .list (r.bindings.map Binding.toValue)), ("viewportHeight", .real r.height)]

def Program.toValue (p : Program) : Value :=
  .object [("name", .text p.name), ("pouType", .text p.pouType.name),
    ("rungs", .list (p.rungs.map Rung.toValue))]

end LadderDiagram
