import LadderDiagram.Export.Codec
import LadderDiagram.Lowering.Report
import LadderDiagram.Text.Blank
import Std.Data.TreeSet

/-!
# Export of programs

A program is checked, lowered and encoded. Only a missing name stops an export;
local ids that several nodes of a rung share are told of before anything else.
-/

namespace LadderDiagram

inductive ExportError where
  | emptyName
  deriving DecidableEq, Repr

def ExportError.message : ExportError → String
  | emptyName => "POU name is empty"

structure Export where
  pou : Pou
  text : String
  warnings : List Warning
  failures : List Failure
  deriving DecidableEq

/-- The ids that occur again, each at its second occurrence, given the ids that were seen and those
that were told of. -/
def repeatedAfter (seen told : Std.TreeSet UInt64) : List UInt64 → List UInt64
  | [] => []
  | id :: rest =>
    let (known, seen) := seen.containsThenInsert id
    if known then
      let (again, told) := told.containsThenInsert id
      if again then repeatedAfter seen told rest else id :: repeatedAfter seen told rest
    else repeatedAfter seen told rest

namespace Rung

def repeatedIds (r : Rung) : List UInt64 := repeatedAfter ∅ ∅ (r.nodes.map (·.numericId))

end Rung

namespace Program

def duplicateWarnings (p : Program) : List Warning :=
  (p.rungs.mapIdx fun index r => r.repeatedIds.map (.duplicateLocalId index)).flatten

/-- Exports a program, unless its name is blank. -/
def exportAs (p : Program) (codec : Codec) : Except ExportError Export :=
  if Text.isBlank p.name then .error .emptyName
  else
    let report := lower codec.config p.rungs
    let pou : Pou := ⟨p.name, p.pouType, report.body⟩
    .ok {
      pou
      text := codec.encode pou
      warnings := p.duplicateWarnings ++ report.warnings
      failures := report.failures }

end Program

end LadderDiagram
