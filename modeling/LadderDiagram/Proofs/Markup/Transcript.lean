import LadderDiagram.Body.Markup
import LadderDiagram.Proofs.Markup.Reader

/-!
# Transcripts of units

A transcript is a program unit as a document shows it: all its data, with the texts that its numbers
are printed as in their place. `Pou.transcript` takes it from a unit. `Transcript.ofMarkup?` finds
it in an element that was read: it looks up attributes and children by their names and knows nothing
of how they were written.
-/

namespace LadderDiagram

open Markup (Attributes)

namespace Markup

def name : Markup → String
  | empty name _ => name
  | text name _ _ => name
  | node name _ _ => name

def attributes : Markup → Attributes
  | empty _ attributes => attributes
  | text _ attributes _ => attributes
  | node _ attributes _ => attributes

def children : Markup → List Markup
  | node _ _ children => children
  | _ => []

def content? : Markup → Option String
  | text _ _ content => some content
  | _ => none

def attribute? (m : Markup) (key : String) : Option String := m.attributes.lookup key

def named (m : Markup) (name : String) : List Markup := m.children.filter (·.name = name)

def child? (m : Markup) (name : String) : Option Markup := (m.named name).head?

end Markup

section
variable (name : String) (attributes : Attributes) (children : List Markup)

@[simp] theorem Markup.name_node : (node name attributes children).name = name := rfl

@[simp] theorem Markup.name_empty : (empty name attributes).name = name := rfl

@[simp] theorem Markup.name_text (content : String) : (text name attributes content).name = name :=
  rfl

@[simp] theorem Markup.content?_text (content : String) :
    (text name attributes content).content? = some content := rfl

@[simp] theorem Markup.children_node : (node name attributes children).children = children := rfl

@[simp] theorem Markup.attribute?_node (key : String) :
    (node name attributes children).attribute? key = attributes.lookup key := rfl

@[simp] theorem Markup.child?_node (key : String) :
    (node name attributes children).child? key = children.find? (·.name = key) :=
  List.head?_filter ..

end

/-- The value with the given name. -/
def ofName? {α : Type} (name : α → String) (values : List α) (s : String) : Option α :=
  values.find? (name · = s)

namespace Transcript

structure Point where
  x : String
  y : String
  deriving DecidableEq

structure Connection where
  refLocalId : String
  formalParameter : Option String
  points : List Transcript.Point
  deriving DecidableEq

structure InputSide where
  relPosition : Option Transcript.Point
  connections : List Transcript.Connection
  deriving DecidableEq

structure OutputSide where
  formalParameter : Option String
  relPosition : Option Transcript.Point
  deriving DecidableEq

structure Place where
  localId : String
  width : String
  height : String
  position : Transcript.Point
  deriving DecidableEq

inductive InputSource where
  | connected (side : Transcript.InputSide)
  | expression (text : String)
  deriving DecidableEq

structure BlockInput where
  formalParameter : String
  source : Transcript.InputSource
  deriving DecidableEq

structure BlockOutput where
  formalParameter : String
  output : Transcript.OutputSide
  deriving DecidableEq

inductive Element where
  | leftRail (place : Place) (output : Transcript.OutputSide)
  | rightRail (place : Place) (input : Transcript.InputSide)
  | block (place : Place) (typeName : String) (instanceName : Option String)
    (executionOrder : String) (inputs : List Transcript.BlockInput)
    (outputs : List Transcript.BlockOutput)
  | contact (place : Place) (negated : Bool) (edge : Option Body.EdgeModifier)
    (input : Transcript.InputSide) (output : Transcript.OutputSide) (operand : String)
  | coil (place : Place) (negated : Bool) (edge : Option Body.EdgeModifier)
    (storage : Option Body.StorageModifier) (input : Transcript.InputSide)
    (output : Transcript.OutputSide) (operand : String)
  | inVariable (place : Place) (negated : Bool) (executionOrder : String)
    (output : Transcript.OutputSide) (expression : String)
  | outVariable (place : Place) (negated : Bool) (executionOrder : String)
    (input : Transcript.InputSide) (expression : String)
  deriving DecidableEq

end Transcript

/-- A unit with its elements in the order of its body. -/
structure Transcript where
  name : String
  pouType : PouType
  elements : List Transcript.Element
  deriving DecidableEq

namespace Transcript

def Point.ofMarkup? (m : Markup) : Option Transcript.Point := do
  return ⟨← m.attribute? "x", ← m.attribute? "y"⟩

def Connection.ofMarkup? (m : Markup) : Option Transcript.Connection := do
  return {
    refLocalId := ← m.attribute? "refLocalId"
    formalParameter := m.attribute? "formalParameter"
    points := ← (m.named "position").mapM Point.ofMarkup? }

def InputSide.ofMarkup? (m : Markup) : Option Transcript.InputSide := do
  return {
    relPosition := ← (m.child? "relPosition").mapM Point.ofMarkup?
    connections := ← (m.named "connection").mapM Connection.ofMarkup? }

def OutputSide.ofMarkup? (m : Markup) : Option Transcript.OutputSide := do
  return {
    formalParameter := m.attribute? "formalParameter"
    relPosition := ← (m.child? "relPosition").mapM Point.ofMarkup? }

def Place.ofMarkup? (m : Markup) : Option Place := do
  return {
    localId := ← m.attribute? "localId"
    width := ← m.attribute? "width"
    height := ← m.attribute? "height"
    position := ← Point.ofMarkup? (← m.child? "position") }

/-- An expression stands in place of the wires. -/
def InputSource.ofMarkup? (m : Markup) : Option Transcript.InputSource :=
  match m.child? "expression" with
  | some e => e.content?.map .expression
  | none => (InputSide.ofMarkup? m).map .connected

def BlockInput.ofMarkup? (m : Markup) : Option Transcript.BlockInput := do
  return {
    formalParameter := ← m.attribute? "formalParameter"
    source := ← InputSource.ofMarkup? (← m.child? "connectionPointIn") }

def BlockOutput.ofMarkup? (m : Markup) : Option Transcript.BlockOutput := do
  return {
    formalParameter := ← m.attribute? "formalParameter"
    output := ← OutputSide.ofMarkup? (← m.child? "connectionPointOut") }

def input? (m : Markup) : Option Transcript.InputSide := do
  InputSide.ofMarkup? (← m.child? "connectionPointIn")

def output? (m : Markup) : Option Transcript.OutputSide := do
  OutputSide.ofMarkup? (← m.child? "connectionPointOut")

def text? (m : Markup) (name : String) : Option String := do (← m.child? name).content?

def negated? (m : Markup) : Option Bool := do
  ofName? toString [false, true] (← m.attribute? "negated")

def edge? (m : Markup) : Option (Option Body.EdgeModifier) :=
  (m.attribute? "edge").mapM (ofName? Body.EdgeModifier.name [.rising, .falling])

def storage? (m : Markup) : Option (Option Body.StorageModifier) :=
  (m.attribute? "storage").mapM (ofName? Body.StorageModifier.name [.set, .reset])

def Element.ofMarkup? (m : Markup) : Option Transcript.Element := do
  let place ← Place.ofMarkup? m
  match m.name with
  | "leftPowerRail" => return .leftRail place (← output? m)
  | "rightPowerRail" => return .rightRail place (← input? m)
  | "block" =>
    return .block place (← m.attribute? "typeName") (m.attribute? "instanceName")
      (← m.attribute? "executionOrderId")
      (← (← m.child? "inputVariables").children.mapM BlockInput.ofMarkup?)
      (← (← m.child? "outputVariables").children.mapM BlockOutput.ofMarkup?)
  | "contact" =>
    return .contact place (← negated? m) (← edge? m) (← input? m) (← output? m)
      (← text? m "variable")
  | "coil" =>
    return .coil place (← negated? m) (← edge? m) (← storage? m) (← input? m) (← output? m)
      (← text? m "variable")
  | "inVariable" =>
    return .inVariable place (← negated? m) (← m.attribute? "executionOrderId") (← output? m)
      (← text? m "expression")
  | "outVariable" =>
    return .outVariable place (← negated? m) (← m.attribute? "executionOrderId") (← input? m)
      (← text? m "expression")
  | _ => none

/-- The transcript that an element of the name `pou` holds. -/
def ofMarkup? (m : Markup) : Option Transcript := do
  guard (m.name = "pou")
  let ladder ← (← m.child? "body").child? "LD"
  return {
    name := ← m.attribute? "name"
    pouType := ← ofName? PouType.name [.program, .function, .functionBlock]
      (← m.attribute? "pouType")
    elements := ← ladder.children.mapM Element.ofMarkup? }

end Transcript

/-! ### Transcripts of bodies -/

def printed (x : Float) : String := Decimal.Format.plain.render x

def Point.transcript (p : Point) : Transcript.Point := ⟨printed p.x, printed p.y⟩

namespace Body

def Connection.transcript (c : Connection) : Transcript.Connection :=
  ⟨toString c.refLocalId, c.formalParameter, c.points.map Point.transcript⟩

def InputSide.transcript (s : InputSide) : Transcript.InputSide :=
  ⟨s.relPosition.map Point.transcript, s.connections.map Connection.transcript⟩

def OutputSide.transcript (s : OutputSide) : Transcript.OutputSide :=
  ⟨s.formalParameter, s.relPosition.map Point.transcript⟩

def place (localId : UInt64) (g : Geometry) : Transcript.Place :=
  ⟨toString localId, printed g.width, printed g.height, g.position.transcript⟩

def InputSource.transcript : InputSource → Transcript.InputSource
  | connected side => .connected side.transcript
  | expression text => .expression text

def BlockInput.transcript (i : BlockInput) : Transcript.BlockInput :=
  ⟨i.formalParameter, i.source.transcript⟩

def BlockOutput.transcript (o : BlockOutput) : Transcript.BlockOutput :=
  ⟨o.formalParameter, o.output.transcript⟩

def Element.transcript : Element → Transcript.Element
  | leftRail e => .leftRail (place e.localId e.geometry) e.output.transcript
  | rightRail e => .rightRail (place e.localId e.geometry) e.input.transcript
  | block e =>
    .block (place e.localId e.geometry) e.typeName e.instanceName (toString e.executionOrder)
      (e.inputs.map BlockInput.transcript) (e.outputs.map BlockOutput.transcript)
  | contact e =>
    .contact (place e.localId e.geometry) e.negated e.edge e.input.transcript e.output.transcript
      e.operand
  | coil e =>
    .coil (place e.localId e.geometry) e.negated e.edge e.storage e.input.transcript
      e.output.transcript e.operand
  | inVariable e =>
    .inVariable (place e.localId e.geometry) e.negated (toString e.executionOrder)
      e.output.transcript e.expression
  | outVariable e =>
    .outVariable (place e.localId e.geometry) e.negated (toString e.executionOrder)
      e.input.transcript e.expression

/-- Rails first, then blocks, contacts, coils and variables, each list in its own order. -/
def transcript (b : Body) : List Transcript.Element :=
  b.leftRails.map (fun e => (Element.leftRail e).transcript) ++
    b.rightRails.map (fun e => (Element.rightRail e).transcript) ++
    b.blocks.map (fun e => (Element.block e).transcript) ++
    b.contacts.map (fun e => (Element.contact e).transcript) ++
    b.coils.map (fun e => (Element.coil e).transcript) ++
    b.inVariables.map (fun e => (Element.inVariable e).transcript) ++
    b.outVariables.map (fun e => (Element.outVariable e).transcript)

end Body

def Pou.transcript (p : Pou) : Transcript := ⟨p.name, p.pouType, p.body.transcript⟩

end LadderDiagram
