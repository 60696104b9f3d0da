import LadderDiagram.Body.Sides

/-!
# Dialects of exchanged bodies

Tools that import ladder bodies differ in three points, each a switch of a
`Config`: whether wires keep their lines, whether all rungs share one pair of
power rails, and whether the output pin `OUT` is written blank. Each switch is a
pass over a finished body.
-/

namespace LadderDiagram

/-- The tool a body is written for. -/
inductive Dialect where
  | openPlc
  | codesys
  deriving DecidableEq, Repr

def Dialect.name : Dialect → String
  | openPlc => "openplc"
  | codesys => "codesys"

def Dialect.names : List (String × Dialect) := [("openPlc", .openPlc), ("codesys", .codesys)]

structure Config where
  dialect : Dialect
  /-- Wires keep their lines, and sides their positions. -/
  routingPoints : Bool
  /-- Only the first rail on either side is kept. -/
  sharedPowerRails : Bool
  /-- The output pin `OUT` is written blank. -/
  blankDefaultOutput : Bool
  deriving DecidableEq, Repr

/-- What a tool expects. -/
def Config.ofDialect : Dialect → Config
  | .openPlc => ⟨.openPlc, true, false, false⟩
  | .codesys => ⟨.codesys, false, true, true⟩

namespace Body

def defaultOutput : String := "OUT"

def blankOutput : String := "   "

def sharedRailParameter : String := "none"

/-- Cites the first left rail in place of any other. -/
def redirectRails (b : Body) : Body :=
  match b.leftRails with
  | [] => b
  | first :: _ =>
    let ids := b.leftRails.map (·.localId)
    b.mapConnections fun c =>
      if c.refLocalId ∈ ids then { c with refLocalId := first.localId } else c

/-- Keeps the first rail on either side. -/
def shareRails (b : Body) : Body :=
  let b := b.redirectRails
  { b with
    leftRails := (b.leftRails.take 1).map fun e =>
      { e with output := { e.output with formalParameter := some sharedRailParameter } }
    rightRails := (b.rightRails.take 1).map fun e =>
      { e with input := { e.input with connections := [] } } }

/-- Drops the lines of wires and the positions of sides. -/
def stripRouting (b : Body) : Body :=
  (b.mapInputs fun side =>
    { relPosition := none
      connections := side.connections.map fun c => { c with points := [] } }).mapOutputs
    fun side => { side with relPosition := none }

/-- The name under which a pin is written when `OUT` is written blank. -/
def blankName (name : String) : String := if name = defaultOutput then blankOutput else name

/-- Writes the output pin `OUT` blank, on blocks and where it is cited. -/
def blankOutputs (b : Body) : Body :=
  let b := b.mapConnections fun c => { c with formalParameter := c.formalParameter.map blankName }
  { b with
    blocks := b.blocks.map fun e =>
      { e with outputs := e.outputs.map fun o =>
        { o with formalParameter := blankName o.formalParameter } } }

/-- The passes that a configuration asks for. -/
def adapt (config : Config) (b : Body) : Body :=
  let b := if config.sharedPowerRails then b.shareRails else b
  let b := if config.routingPoints then b else b.stripRouting
  if config.blankDefaultOutput then b.blankOutputs else b

end Body

end LadderDiagram
