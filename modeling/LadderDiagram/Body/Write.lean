import LadderDiagram.Body.Basic
import LadderDiagram.Snapshot.Write

/-!
# Bodies as documents

The fields of every part of a body in order; what is not there is left out.
-/

namespace LadderDiagram

open Json (Value)

/-- A member that is there only if its value is. -/
def optionalMember {α : Type} (name : String) (f : α → Value) (a : Option α) :
    List (String × Value) :=
  a.elim [] fun a => [(name, f a)]

namespace Body

def Connection.toValue (c : Connection) : Value :=
  .object <|
    ("refLocalId", .natural c.refLocalId.toNat)
      :: optionalMember "formalParameter" .text c.formalParameter
      ++ [("points", .list (c.points.map Point.toValue))]

def InputSide.toValue (s : InputSide) : Value :=
  .object <|
    optionalMember "relPosition" Point.toValue s.relPosition
      ++ [("connections", .list (s.connections.map Connection.toValue))]

def OutputSide.toValue (s : OutputSide) : Value :=
  .object <|
    optionalMember "formalParameter" .text s.formalParameter
      ++ optionalMember "relPosition" Point.toValue s.relPosition

def Geometry.toValue (g : Geometry) : Value :=
  .object [("position", g.position.toValue), ("width", .real g.width), ("height", .real g.height)]

def placeMembers (localId : UInt64) (g : Geometry) : List (String × Value) :=
  [("localId", .natural localId.toNat), ("geometry", g.toValue)]

def LeftRail.toValue (e : LeftRail) : Value :=
  .object (placeMembers e.localId e.geometry ++ [("connectionPointOut", e.output.toValue)])

def RightRail.toValue (e : RightRail) : Value :=
  .object (placeMembers e.localId e.geometry ++ [("connectionPointIn", e.input.toValue)])

def Contact.toValue (e : Contact) : Value :=
  .object <|
    placeMembers e.localId e.geometry
      ++ [("negated", .boolean e.negated)]
      ++ optionalMember "edge" (fun m => .text m.name) e.edge
      ++ [("connectionPointIn", e.input.toValue), ("connectionPointOut", e.output.toValue),
        ("variable", .text e.operand)]

def Coil.toValue (e : Coil) : Value :=
  .object <|
    placeMembers e.localId e.geometry
      ++ [("negated", .boolean e.negated)]
      ++ optionalMember "edge" (fun m => .text m.name) e.edge
      ++ optionalMember "storage" (fun m => .text m.name) e.storage
      ++ [("connectionPointIn", e.input.toValue), ("connectionPointOut", e.output.toValue),
        ("variable", .text e.operand)]

def InputSource.toValue : InputSource → Value
  | connected side => .object [("connected", side.toValue)]
  | expression text => .object [("expression", .text text)]

def BlockInput.toValue (i : BlockInput) : Value :=
  .object [("formalParameter", .text i.formalParameter), ("source", i.source.toValue)]

def BlockOutput.toValue (o : BlockOutput) : Value :=
  .object [("formalParameter", .text o.formalParameter), ("connectionPointOut", o.output.toValue)]

def Block.toValue (e : Block) : Value :=
  .object <|
    [("localId", .natural e.localId.toNat), ("typeName", .text e.typeName)]
      ++ optionalMember "instanceName" .text e.instanceName
      ++ [("executionOrderId", .natural e.executionOrder.toNat), ("geometry", e.geometry.toValue),
        ("inputVariables", .list (e.inputs.map BlockInput.toValue)),
        ("outputVariables", .list (e.outputs.map BlockOutput.toValue))]

def InVariable.toValue (e : InVariable) : Value :=
  .object <|
    placeMembers e.localId e.geometry
      ++ [("negated", .boolean e.negated), ("executionOrderId", .natural e.executionOrder.toNat),
        ("connectionPointOut", e.output.toValue), ("expression", .text e.expression)]

def OutVariable.toValue (e : OutVariable) : Value :=
  .object <|
    placeMembers e.localId e.geometry
      ++ [("negated", .boolean e.negated), ("executionOrderId", .natural e.executionOrder.toNat),
        ("connectionPointIn", e.input.toValue), ("expression", .text e.expression)]

def Element.toValue : Element → Value
  | leftRail e => e.toValue
  | rightRail e => e.toValue
  | block e => e.toValue
  | contact e => e.toValue
  | coil e => e.toValue
  | inVariable e => e.toValue
  | outVariable e => e.toValue

def toValue (b : Body) : Value :=
  .object [("leftPowerRails", .list (b.leftRails.map LeftRail.toValue)),
    ("rightPowerRails", .list (b.rightRails.map RightRail.toValue)),
    ("blocks", .list (b.blocks.map Block.toValue)),
    ("contacts", .list (b.contacts.map Contact.toValue)),
    ("coils", .list (b.coils.map Coil.toValue)),
    ("inVariables", .list (b.inVariables.map InVariable.toValue)),
    ("outVariables", .list (b.outVariables.map OutVariable.toValue))]

end Body

def Pou.toValue (p : Pou) : Value :=
  .object [("name", .text p.name), ("pouType", .text p.pouType.name), ("body", p.body.toValue)]

end LadderDiagram
