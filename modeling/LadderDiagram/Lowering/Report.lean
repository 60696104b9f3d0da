import LadderDiagram.Body.Dialect
import LadderDiagram.Graph.Pairing
import LadderDiagram.Lowering.Emission

/-!
# Lowering of rungs

`lower` turns a list of rungs into one body. Each rung is lowered on its own; a
rung whose markers are malformed is dropped as a whole and told of in a failure,
and the rungs below it stay where they are. The passes of the dialect run over
the body of all rungs.
-/

namespace LadderDiagram

structure Lowered where
  elements : List Body.Element
  warnings : List Warning
  deriving DecidableEq

/-- The result of lowering a list of rungs. -/
structure Report where
  body : Body
  warnings : List Warning
  failures : List Failure
  deriving DecidableEq

namespace Report

def isClean (r : Report) : Bool := r.warnings.isEmpty && r.failures.isEmpty

end Report

namespace Rung

/-- The rung at the given index, to be lowered at the given offset. -/
def context (r : Rung) (index : Nat) (offset : Offset) : RungContext :=
  ⟨index, Topology.ofRung r, offset⟩

def danglingWarnings (r : Rung) (index : Nat) : List Warning :=
  (Topology.ofRung r).dangling.map fun e => .danglingEdge index e.source e.target

/-- Lowers a rung, unless its markers are malformed. -/
def lower (r : Rung) (index : Nat) (offset : Offset) : Except MalformedGraph Lowered := do
  let cx := r.context index offset
  let _ ← cx.topology.pairs
  let emitted ← r.nodes.mapM cx.emit
  return {
    elements := emitted.filterMap (·.element)
    warnings := r.danglingWarnings index ++ emitted.flatMap (·.warnings) }

end Rung

/-- A rung of a list, with what became of it. -/
structure Outcome where
  index : Nat
  rung : Rung
  offset : Offset
  result : Except MalformedGraph Lowered

namespace Outcome

def elements (o : Outcome) : List Body.Element := o.result.toOption.elim [] (·.elements)

def warnings (o : Outcome) : List Warning := o.result.toOption.elim [] (·.warnings)

def failure? (o : Outcome) : Option Failure :=
  match o.result with
  | .ok _ => none
  | .error cause => some ⟨o.index, o.rung.id, cause⟩

end Outcome

def outcomes (rungs : List Rung) : List Outcome :=
  (rungs.zip (Offset.ofRungs rungs)).mapIdx fun index (rung, offset) =>
    ⟨index, rung, offset, rung.lower index offset⟩

/-- Lowers a list of rungs to one body. -/
def lower (config : Config) (rungs : List Rung) : Report :=
  let outcomes := outcomes rungs
  { body := (Body.ofElements (outcomes.flatMap (·.elements))).adapt config
    warnings := outcomes.flatMap (·.warnings)
    failures := outcomes.filterMap (·.failure?) }

end LadderDiagram
