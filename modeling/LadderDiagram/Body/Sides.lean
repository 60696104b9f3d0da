import LadderDiagram.Body.Basic

/-!
# Sides of a body

The input sides of a body stand on right rails, contacts, coils, wired block
pins and out-variables, its output sides on left rails, contacts, coils, block
pins and in-variables; they are listed in that order. `mapInputs` and
`mapOutputs` change every side and leave all else as it is.
-/

namespace LadderDiagram.Body

namespace Block

def inputSides (b : Block) : List InputSide :=
  b.inputs.filterMap fun i =>
    match i.source with
    | .connected side => some side
    | .expression _ => none

end Block

def inputSides (b : Body) : List InputSide :=
  b.rightRails.map (·.input) ++ b.contacts.map (·.input) ++ b.coils.map (·.input)
    ++ b.blocks.flatMap Block.inputSides ++ b.outVariables.map (·.input)

def outputSides (b : Body) : List OutputSide :=
  b.leftRails.map (·.output) ++ b.contacts.map (·.output) ++ b.coils.map (·.output)
    ++ b.blocks.flatMap (fun block => block.outputs.map (·.output)) ++ b.inVariables.map (·.output)

namespace InputSource

def mapSide (f : InputSide → InputSide) : InputSource → InputSource
  | connected side => connected (f side)
  | expression text => expression text

end InputSource

namespace Block

def mapInputs (f : InputSide → InputSide) (b : Block) : Block :=
  { b with inputs := b.inputs.map fun i => { i with source := i.source.mapSide f } }

end Block

def mapInputs (f : InputSide → InputSide) (b : Body) : Body :=
  { b with
    rightRails := b.rightRails.map fun e => { e with input := f e.input }
    contacts := b.contacts.map fun e => { e with input := f e.input }
    coils := b.coils.map fun e => { e with input := f e.input }
    blocks := b.blocks.map (Block.mapInputs f)
    outVariables := b.outVariables.map fun e => { e with input := f e.input } }

def mapConnections (f : Connection → Connection) : Body → Body :=
  mapInputs fun side => { side with connections := side.connections.map f }

/-- Changes every output side, by an action that sees the sides in their order. -/
def traverseOutputs {m : Type → Type} [Monad m] (f : OutputSide → m OutputSide) (b : Body) :
    m Body := do
  let leftRails ← b.leftRails.mapM fun e => do return { e with output := ← f e.output }
  let contacts ← b.contacts.mapM fun e => do return { e with output := ← f e.output }
  let coils ← b.coils.mapM fun e => do return { e with output := ← f e.output }
  let blocks ← b.blocks.mapM fun (e : Block) => do
    let outputs ← e.outputs.mapM fun o => do return { o with output := ← f o.output }
    return { e with outputs }
  let inVariables ← b.inVariables.mapM fun e => do return { e with output := ← f e.output }
  return { b with leftRails, contacts, coils, blocks, inVariables }

def mapOutputs (f : OutputSide → OutputSide) (b : Body) : Body :=
  { b with
    leftRails := b.leftRails.map fun e => { e with output := f e.output }
    contacts := b.contacts.map fun e => { e with output := f e.output }
    coils := b.coils.map fun e => { e with output := f e.output }
    blocks := b.blocks.map fun e =>
      { e with outputs := e.outputs.map fun o => { o with output := f o.output } }
    inVariables := b.inVariables.map fun e => { e with output := f e.output } }

end LadderDiagram.Body
