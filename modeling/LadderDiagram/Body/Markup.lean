import LadderDiagram.Body.Basic
import LadderDiagram.Decimal.Format
import LadderDiagram.Markup.Basic

/-!
# Bodies as markup

Each element of a body is one markup element: its local id, its own attributes
and its size as attributes, then its position, its sides and its text.
-/

namespace LadderDiagram

open Markup (Attributes)

def Point.toMarkup (name : String) (p : Point) : Markup :=
  .empty name [("x", Decimal.Format.plain.render p.x), ("y", Decimal.Format.plain.render p.y)]

/-- Elements between tags, or a single tag if there are none. -/
def nodeOrEmpty (name : String) (attributes : Attributes) (children : List Markup) : Markup :=
  if children.isEmpty then .empty name attributes else .node name attributes children

namespace Body

def Connection.toMarkup (c : Connection) : Markup :=
  nodeOrEmpty "connection"
    (("refLocalId", toString c.refLocalId)
      :: (c.formalParameter.map ("formalParameter", ·)).toList)
    (c.points.map (Point.toMarkup "position"))

def InputSide.toMarkup (s : InputSide) : Markup :=
  nodeOrEmpty "connectionPointIn" []
    ((s.relPosition.map (Point.toMarkup "relPosition")).toList
      ++ s.connections.map Connection.toMarkup)

def OutputSide.toMarkup (s : OutputSide) : Markup :=
  nodeOrEmpty "connectionPointOut" (s.formalParameter.map ("formalParameter", ·)).toList
    (s.relPosition.map (Point.toMarkup "relPosition")).toList

/-- The attributes of every element: its local id, its own attributes, its size. -/
def attributes (localId : UInt64) (own : Attributes) (g : Geometry) : Attributes :=
  ("localId", toString localId) :: own
    ++ [("width", Decimal.Format.plain.render g.width),
      ("height", Decimal.Format.plain.render g.height)]

def position (g : Geometry) : Markup := g.position.toMarkup "position"

def LeftRail.toMarkup (e : LeftRail) : Markup :=
  .node "leftPowerRail" (attributes e.localId [] e.geometry)
    [position e.geometry, e.output.toMarkup]

def RightRail.toMarkup (e : RightRail) : Markup :=
  .node "rightPowerRail" (attributes e.localId [] e.geometry)
    [position e.geometry, e.input.toMarkup]

def Contact.toMarkup (e : Contact) : Markup :=
  let own := ("negated", toString e.negated) :: (e.edge.map fun m => ("edge", m.name)).toList
  .node "contact" (attributes e.localId own e.geometry)
    [position e.geometry, e.input.toMarkup, e.output.toMarkup, .text "variable" [] e.operand]

def Coil.toMarkup (e : Coil) : Markup :=
  let own := ("negated", toString e.negated) :: (e.edge.map fun m => ("edge", m.name)).toList
    ++ (e.storage.map fun m => ("storage", m.name)).toList
  .node "coil" (attributes e.localId own e.geometry)
    [position e.geometry, e.input.toMarkup, e.output.toMarkup, .text "variable" [] e.operand]

/-- A pin takes its value from wires, or from an expression in their place. -/
def InputSource.toMarkup : InputSource → Markup
  | connected side => side.toMarkup
  | expression text => .node "connectionPointIn" [] [.text "expression" [] text]

def BlockInput.toMarkup (i : BlockInput) : Markup :=
  .node "variable" [("formalParameter", i.formalParameter)] [i.source.toMarkup]

def BlockOutput.toMarkup (o : BlockOutput) : Markup :=
  .node "variable" [("formalParameter", o.formalParameter)] [o.output.toMarkup]

def Block.toMarkup (e : Block) : Markup :=
  let own := ("typeName", e.typeName) :: (e.instanceName.map ("instanceName", ·)).toList
  .node "block"
    (attributes e.localId own e.geometry ++ [("executionOrderId", toString e.executionOrder)])
    [position e.geometry,
      .node "inputVariables" [] (e.inputs.map BlockInput.toMarkup),
      .empty "inOutVariables" [],
      .node "outputVariables" [] (e.outputs.map BlockOutput.toMarkup)]

def variableAttributes (negated : Bool) (executionOrder : UInt32) : Attributes :=
  [("negated", toString negated), ("executionOrderId", toString executionOrder)]

def InVariable.toMarkup (e : InVariable) : Markup :=
  .node "inVariable"
    (attributes e.localId (variableAttributes e.negated e.executionOrder) e.geometry)
    [position e.geometry, e.output.toMarkup, .text "expression" [] e.expression]

def OutVariable.toMarkup (e : OutVariable) : Markup :=
  .node "outVariable"
    (attributes e.localId (variableAttributes e.negated e.executionOrder) e.geometry)
    [position e.geometry, e.input.toMarkup, .text "expression" [] e.expression]

def Element.toMarkup : Element → Markup
  | leftRail e => e.toMarkup
  | rightRail e => e.toMarkup
  | block e => e.toMarkup
  | contact e => e.toMarkup
  | coil e => e.toMarkup
  | inVariable e => e.toMarkup
  | outVariable e => e.toMarkup

def toMarkup (b : Body) : Markup := .node "LD" [] (b.elements.map Element.toMarkup)

end Body

namespace Pou

def namespaceName : String := "http://www.plcopen.org/xml/tc6_0201"

def toMarkup (p : Pou) : Markup :=
  .node "pou" [("xmlns", namespaceName), ("name", p.name), ("pouType", p.pouType.name)]
    [.node "body" [] [p.body.toMarkup]]

def markupDocument (p : Pou) : String := Markup.document p.toMarkup

end Pou

end LadderDiagram
