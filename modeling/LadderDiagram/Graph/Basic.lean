/-!
# Ladder graphs

A rung as it is drawn in an editor: nodes, wires between their connectors, and
bindings of variables to block pins. Parallel branches are drawn with a pair of
markers, an open one where the branch leaves the serial line and a close one
where it rejoins. A program is a list of rungs.
-/

namespace LadderDiagram

/-- A point of the canvas; `y` grows downwards. -/
structure Point where
  x : Float
  y : Float
  deriving DecidableEq

namespace Point

def origin : Point := ⟨0, 0⟩

def down (p : Point) (dy : Float) : Point := ⟨p.x, p.y + dy⟩

end Point

/-- A place on a node where wires end. -/
structure Connector where
  id : String
  /-- Position on the node. -/
  relative : Point := Point.origin
  /-- Position on the canvas. -/
  absolute : Point := Point.origin
  deriving DecidableEq

inductive ContactVariant where
  | normal
  | negated
  | risingEdge
  | fallingEdge
  deriving DecidableEq, Repr

inductive CoilVariant where
  | normal
  | negated
  | risingEdge
  | fallingEdge
  | set
  | reset
  deriving DecidableEq, Repr

/-- A call of a function or of a function block instance. -/
structure BlockData where
  typeName : String
  /-- Only instances of function blocks have one. -/
  instanceName : Option String := none
  executionOrder : UInt32 := 0
  inputs : List Connector := []
  outputs : List Connector := []
  deriving DecidableEq

namespace BlockData

def input? (b : BlockData) (id : String) : Option Connector := b.inputs.find? (·.id == id)

def output? (b : BlockData) (id : String) : Option Connector := b.outputs.find? (·.id == id)

end BlockData

/-- A variable or literal beside a block. -/
structure VariableData where
  name : String := ""
  executionOrder : UInt32 := 0
  deriving DecidableEq

inductive NodeKind where
  | leftRail
  | rightRail
  | contact (operand : String) (variant : ContactVariant)
  | coil (operand : String) (variant : CoilVariant)
  | block (data : BlockData)
  | variableIn (data : VariableData)
  | variableOut (data : VariableData)
  /-- A branch leaves the serial line through `branch`. -/
  | parallelOpen (branch : Connector)
  /-- A branch rejoins the serial line through `branch`. -/
  | parallelClose (branch : Connector)
  /-- A kind that cannot be exported. -/
  | unknown
  deriving DecidableEq

namespace NodeKind

def isParallel : NodeKind → Bool
  | parallelOpen _ | parallelClose _ => true
  | _ => false

def isVariable : NodeKind → Bool
  | variableIn _ | variableOut _ => true
  | _ => false

def tag : NodeKind → String
  | leftRail => "leftRail"
  | rightRail => "rightRail"
  | contact .. => "contact"
  | coil .. => "coil"
  | block _ => "block"
  | variableIn _ => "variableIn"
  | variableOut _ => "variableOut"
  | parallelOpen _ => "parallelOpen"
  | parallelClose _ => "parallelClose"
  | unknown => "unknown"

end NodeKind

structure Node where
  /-- Names the node inside its rung. -/
  id : String
  /-- Names the element in the exported body. -/
  numericId : UInt64
  position : Point := Point.origin
  width : Float := 0
  height : Float := 0
  input : Option Connector := none
  output : Option Connector := none
  kind : NodeKind
  deriving DecidableEq

namespace Node

/-- Where wires into the node end. -/
def inputPoint (n : Node) : Point := n.input.elim Point.origin (·.absolute)

/-- Where wires out of the node begin. -/
def outputPoint (n : Node) : Point := n.output.elim Point.origin (·.absolute)

def isClose (n : Node) : Bool :=
  match n.kind with
  | .parallelClose _ => true
  | _ => false

end Node

/-- A wire between two connectors. -/
structure Edge where
  source : String
  sourceHandle : String
  target : String
  targetHandle : String
  deriving DecidableEq, Repr

/-- A variable node stands for one pin of a block. -/
structure Binding where
  variableId : String
  blockId : String
  handle : String
  deriving DecidableEq, Repr

structure Rung where
  id : String := ""
  nodes : List Node := []
  edges : List Edge := []
  bindings : List Binding := []
  /-- Height of the canvas the rung is drawn on. -/
  height : Float := 0
  deriving DecidableEq

namespace Rung

def node? (r : Rung) (id : String) : Option Node := r.nodes.find? (·.id == id)

def bindingForHandle? (r : Rung) (block handle : String) : Option Binding :=
  r.bindings.find? fun b => b.blockId == block && b.handle == handle

def bindingForVariable? (r : Rung) (id : String) : Option Binding :=
  r.bindings.find? (·.variableId == id)

end Rung

inductive PouType where
  | program
  | function
  | functionBlock
  deriving DecidableEq, Repr

namespace PouType

def name : PouType → String
  | program => "program"
  | function => "function"
  | functionBlock => "functionBlock"

end PouType

structure Program where
  name : String
  pouType : PouType := .program
  rungs : List Rung := []
  deriving DecidableEq

end LadderDiagram
