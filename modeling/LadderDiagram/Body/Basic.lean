import LadderDiagram.Graph.Basic

/-!
# Ladder bodies

The flat form in which a ladder diagram is exchanged: seven lists of elements,
each with its place on the canvas. An input side lists the elements it is wired
to by their local ids. Rungs show only as bands of the canvas.
-/

namespace LadderDiagram

namespace Body

/-- A wire into an input side, cited by the element at its other end. -/
structure Connection where
  refLocalId : UInt64
  /-- The output pin, when the element cited is a block. -/
  formalParameter : Option String := none
  /-- The line of the wire, from the citing element to the one cited. -/
  points : List Point
  deriving DecidableEq

/-- The side of an element on which wires end. -/
structure InputSide where
  relPosition : Option Point := none
  connections : List Connection := []
  deriving DecidableEq

/-- The side of an element on which wires begin. -/
structure OutputSide where
  formalParameter : Option String := none
  relPosition : Option Point := none
  deriving DecidableEq

/-- The place of an element on the canvas of the whole body. -/
structure Geometry where
  position : Point
  width : Float
  height : Float
  deriving DecidableEq

inductive EdgeModifier where
  | rising
  | falling
  deriving DecidableEq, Repr

def EdgeModifier.name : EdgeModifier → String
  | rising => "rising"
  | falling => "falling"

inductive StorageModifier where
  | set
  | reset
  deriving DecidableEq, Repr

def StorageModifier.name : StorageModifier → String
  | set => "set"
  | reset => "reset"

structure LeftRail where
  localId : UInt64
  geometry : Geometry
  output : OutputSide
  deriving DecidableEq

structure RightRail where
  localId : UInt64
  geometry : Geometry
  input : InputSide
  deriving DecidableEq

structure Contact where
  localId : UInt64
  geometry : Geometry
  negated : Bool
  edge : Option EdgeModifier
  input : InputSide
  output : OutputSide
  operand : String
  deriving DecidableEq

structure Coil where
  localId : UInt64
  geometry : Geometry
  negated : Bool
  edge : Option EdgeModifier
  storage : Option StorageModifier
  input : InputSide
  output : OutputSide
  operand : String
  deriving DecidableEq

/-- Where an input pin of a block takes its value from. -/
inductive InputSource where
  | connected (side : InputSide)
  | expression (text : String)
  deriving DecidableEq

structure BlockInput where
  formalParameter : String
  source : InputSource
  deriving DecidableEq

namespace BlockInput

def isConnected (i : BlockInput) : Bool :=
  match i.source with
  | .connected _ => true
  | .expression _ => false

def connections (i : BlockInput) : List Connection :=
  match i.source with
  | .connected side => side.connections
  | .expression _ => []

end BlockInput

structure BlockOutput where
  formalParameter : String
  output : OutputSide
  deriving DecidableEq

structure Block where
  localId : UInt64
  typeName : String
  instanceName : Option String
  executionOrder : UInt32
  geometry : Geometry
  inputs : List BlockInput
  outputs : List BlockOutput
  deriving DecidableEq

namespace Block

def input? (b : Block) (formalParameter : String) : Option BlockInput :=
  b.inputs.find? (·.formalParameter == formalParameter)

end Block

structure InVariable where
  localId : UInt64
  geometry : Geometry
  negated : Bool
  executionOrder : UInt32
  output : OutputSide
  expression : String
  deriving DecidableEq

structure OutVariable where
  localId : UInt64
  geometry : Geometry
  negated : Bool
  executionOrder : UInt32
  input : InputSide
  expression : String
  deriving DecidableEq

inductive Element where
  | leftRail (e : LeftRail)
  | rightRail (e : RightRail)
  | block (e : Block)
  | contact (e : Contact)
  | coil (e : Coil)
  | inVariable (e : InVariable)
  | outVariable (e : OutVariable)
  deriving DecidableEq

namespace Element

def leftRail? : Element → Option LeftRail
  | leftRail e => some e
  | _ => none

def rightRail? : Element → Option RightRail
  | rightRail e => some e
  | _ => none

def block? : Element → Option Block
  | block e => some e
  | _ => none

def contact? : Element → Option Contact
  | contact e => some e
  | _ => none

def coil? : Element → Option Coil
  | coil e => some e
  | _ => none

def inVariable? : Element → Option InVariable
  | inVariable e => some e
  | _ => none

def outVariable? : Element → Option OutVariable
  | outVariable e => some e
  | _ => none

end Element

end Body

open Body in
/-- The elements of a ladder diagram, sorted by kind. -/
structure Body where
  leftRails : List LeftRail := []
  rightRails : List RightRail := []
  blocks : List Block := []
  contacts : List Contact := []
  coils : List Coil := []
  inVariables : List InVariable := []
  outVariables : List OutVariable := []
  deriving DecidableEq

namespace Body

def ofElements (es : List Element) : Body where
  leftRails := es.filterMap Element.leftRail?
  rightRails := es.filterMap Element.rightRail?
  blocks := es.filterMap Element.block?
  contacts := es.filterMap Element.contact?
  coils := es.filterMap Element.coil?
  inVariables := es.filterMap Element.inVariable?
  outVariables := es.filterMap Element.outVariable?

def append (a b : Body) : Body where
  leftRails := a.leftRails ++ b.leftRails
  rightRails := a.rightRails ++ b.rightRails
  blocks := a.blocks ++ b.blocks
  contacts := a.contacts ++ b.contacts
  coils := a.coils ++ b.coils
  inVariables := a.inVariables ++ b.inVariables
  outVariables := a.outVariables ++ b.outVariables

instance : Append Body := ⟨append⟩

theorem ofElements_append (as bs : List Element) :
    ofElements (as ++ bs) = ofElements as ++ ofElements bs := by
  show _ = append _ _
  simp only [ofElements, append, List.filterMap_append]

def sizes (b : Body) : List Nat :=
  [b.leftRails.length, b.rightRails.length, b.blocks.length, b.contacts.length, b.coils.length,
    b.inVariables.length, b.outVariables.length]

/-- The elements, list by list. -/
def elements (b : Body) : List Element :=
  b.leftRails.map .leftRail ++ b.rightRails.map .rightRail ++ b.blocks.map .block
    ++ b.contacts.map .contact ++ b.coils.map .coil ++ b.inVariables.map .inVariable
    ++ b.outVariables.map .outVariable

def size (b : Body) : Nat := b.elements.length

def isEmpty (b : Body) : Bool := b.elements.isEmpty

end Body

namespace Body.Element

def localId : Element → UInt64
  | leftRail e => e.localId
  | rightRail e => e.localId
  | block e => e.localId
  | contact e => e.localId
  | coil e => e.localId
  | inVariable e => e.localId
  | outVariable e => e.localId

def geometry : Element → Geometry
  | leftRail e => e.geometry
  | rightRail e => e.geometry
  | block e => e.geometry
  | contact e => e.geometry
  | coil e => e.geometry
  | inVariable e => e.geometry
  | outVariable e => e.geometry

end Body.Element

namespace Body

def geometries (b : Body) : List Geometry := b.elements.map Element.geometry

/-- The wires into the main input of the element with a local id; of a block, into its
first pin that is wired. -/
def connectionsInto (b : Body) (localId : UInt64) : Option (List Connection) :=
  (b.rightRails.find? (·.localId == localId)).map (·.input.connections)
  <|> (b.contacts.find? (·.localId == localId)).map (·.input.connections)
  <|> (b.coils.find? (·.localId == localId)).map (·.input.connections)
  <|> (b.outVariables.find? (·.localId == localId)).map (·.input.connections)
  <|> ((b.blocks.find? (·.localId == localId)).bind (·.inputs.find? BlockInput.isConnected)).map
    BlockInput.connections

end Body

/-- A program unit with its body. -/
structure Pou where
  name : String
  pouType : PouType
  body : Body
  deriving DecidableEq

end LadderDiagram
