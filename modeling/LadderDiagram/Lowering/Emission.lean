import LadderDiagram.Lowering.Connections
import LadderDiagram.Lowering.Issue

/-!
# Elements of a rung

Every node of a rung becomes at most one element of the body, read off the node
and what the rung says about it; markers, unnamed variables and unknown kinds
become none. What could not be resolved on the way is told in warnings.
-/

namespace LadderDiagram

open Body

structure Emitted where
  element : Option Element := none
  warnings : List Warning := []
  deriving DecidableEq

/-- Stands for an operand that was not given yet. -/
def placeholderOperand : String := "A"

def operandOr (operand : String) : String := if operand.isEmpty then placeholderOperand else operand

/-- The input side at a connector, or at the origin of a node without one. -/
def inputSide (c : Option Connector) (connections : List Connection) : InputSide where
  relPosition := some (c.elim Point.origin (·.relative))
  connections

/-- The output side at a connector, or at the origin of a node without one. -/
def outputSide (c : Option Connector) : OutputSide where
  relPosition := some (c.elim Point.origin (·.relative))

namespace ContactVariant

def edge : ContactVariant → Option EdgeModifier
  | risingEdge => some .rising
  | fallingEdge => some .falling
  | normal | negated => none

end ContactVariant

namespace CoilVariant

def edge : CoilVariant → Option EdgeModifier
  | risingEdge => some .rising
  | fallingEdge => some .falling
  | _ => none

def storage : CoilVariant → Option StorageModifier
  | set => some .set
  | reset => some .reset
  | _ => none

end CoilVariant

namespace RungContext

def dangling (cx : RungContext) (n : Node) (reference : String) : Warning :=
  .danglingReference cx.index n.id reference

def leftRail (cx : RungContext) (n : Node) : LeftRail where
  localId := n.numericId
  geometry := cx.offset.place n
  output := { outputSide n.output with formalParameter := some "" }

def rightRail (cx : RungContext) (n : Node) : Except MalformedGraph RightRail := do
  let connections ← cx.intoNode n
  return {
    localId := n.numericId
    geometry := cx.offset.place n
    input := inputSide n.input connections }

def contact (cx : RungContext) (n : Node) (operand : String) (variant : ContactVariant) :
    Except MalformedGraph Contact := do
  let connections ← cx.intoNode n
  return {
    localId := n.numericId
    geometry := cx.offset.place n
    negated := variant = .negated
    edge := variant.edge
    input := inputSide n.input connections
    output := outputSide n.output
    operand := operandOr operand }

def coil (cx : RungContext) (n : Node) (operand : String) (variant : CoilVariant) :
    Except MalformedGraph Coil := do
  let connections ← cx.intoNode n
  return {
    localId := n.numericId
    geometry := cx.offset.place n
    negated := variant = .negated
    edge := variant.edge
    storage := variant.storage
    input := inputSide n.input connections
    output := outputSide n.output
    operand := operandOr operand }

/-- The name of the variable or literal that is bound to a pin of a block. -/
def boundExpression (cx : RungContext) (block : Node) (pin : Connector) : Option String := do
  let binding ← cx.topology.rung.bindingForHandle? block.id pin.id
  let variableNode ← cx.topology.node? binding.variableId
  match variableNode.kind with
  | .variableIn data => if data.name.isEmpty then none else some data.name
  | _ => none

/-- Where a pin takes its value from: wires first, then a bound variable. -/
def pinSource (cx : RungContext) (block : Node) (pin : Connector) :
    Except MalformedGraph (Option InputSource) := do
  match ← cx.intoPin block pin with
  | [] => return (cx.boundExpression block pin).map .expression
  | connections => return some (.connected (inputSide (some pin) connections))

/-- The input pins of a block, each with its source. -/
def pins (cx : RungContext) (block : Node) (data : BlockData) :
    Except MalformedGraph (List (Connector × Option InputSource)) :=
  data.inputs.mapM fun pin => do return (pin, ← cx.pinSource block pin)

/-- A block; pins without a source are left out and told of. -/
def block (cx : RungContext) (n : Node) (data : BlockData) :
    Except MalformedGraph (Block × List Warning) := do
  let pins ← cx.pins n data
  let element : Block := {
    localId := n.numericId
    typeName := data.typeName
    instanceName := data.instanceName.filter (!·.isEmpty)
    executionOrder := data.executionOrder
    geometry := cx.offset.place n
    inputs := pins.filterMap fun (pin, source) => source.map (⟨pin.id, ·⟩)
    outputs := data.outputs.map fun pin => ⟨pin.id, outputSide (some pin)⟩ }
  let missing := pins.filter fun (_, source) => source.isNone
  return (element, missing.map fun (pin, _) => cx.dangling n pin.id)

/-- A variable that feeds pins, if it has a name. -/
def inVariable (cx : RungContext) (n : Node) (data : VariableData) : Option InVariable :=
  if data.name.isEmpty then none
  else some {
    localId := n.numericId
    geometry := cx.offset.place n
    negated := false
    executionOrder := data.executionOrder
    output := outputSide n.output
    expression := data.name }

/-- The connection from a variable to the output pin that it is bound to. -/
def boundPin (cx : RungContext) (n : Node) : Option Connection := do
  let binding ← cx.topology.rung.bindingForVariable? n.id
  let block ← cx.topology.node? binding.blockId
  match block.kind with
  | .block data =>
    let start := ((data.output? binding.handle).map (·.absolute)).getD block.outputPoint
    some {
      refLocalId := block.numericId
      formalParameter := some binding.handle
      points := [cx.offset.apply n.inputPoint, cx.offset.apply start] }
  | _ => none

/-- A variable that takes the value of a pin, if it has a name; without a pin it is told of. -/
def outVariable (cx : RungContext) (n : Node) (data : VariableData) :
    Option (OutVariable × List Warning) :=
  if data.name.isEmpty then none
  else
    let bound := cx.boundPin n
    let element : OutVariable := {
      localId := n.numericId
      geometry := cx.offset.place n
      negated := false
      executionOrder := data.executionOrder
      input := inputSide n.input bound.toList
      expression := data.name }
    some (element, if bound.isSome then [] else [cx.dangling n data.name])

def emit (cx : RungContext) (n : Node) : Except MalformedGraph Emitted :=
  match n.kind with
  | .leftRail => .ok { element := some (.leftRail (cx.leftRail n)) }
  | .rightRail => do return { element := some (.rightRail (← cx.rightRail n)) }
  | .contact operand variant => do
    return { element := some (.contact (← cx.contact n operand variant)) }
  | .coil operand variant => do return { element := some (.coil (← cx.coil n operand variant)) }
  | .block data => do
    let (element, warnings) ← cx.block n data
    return { element := some (.block element), warnings }
  | .variableIn data => .ok { element := (cx.inVariable n data).map .inVariable }
  | .variableOut data =>
    match cx.outVariable n data with
    | some (element, warnings) => .ok { element := some (.outVariable element), warnings }
    | none => .ok {}
  | .parallelOpen _ | .parallelClose _ => .ok {}
  | .unknown => .ok { warnings := [.unknownNodeKind cx.index n.id] }

end RungContext

end LadderDiagram
