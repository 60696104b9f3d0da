import LadderDiagram.Decimal.Format
import LadderDiagram.Export.Basic

/-!
# Log of an export

The lines in which an export tells what it does, in order: the rungs one by one,
each with the nodes as far as they were lowered, and at last the whole.
-/

namespace LadderDiagram

inductive LogLevel where
  | debug
  | warn
  deriving DecidableEq, Repr

def LogLevel.name : LogLevel → String
  | debug => "DEBUG"
  | warn => "WARN"

structure LogLine where
  level : LogLevel
  text : String
  deriving DecidableEq, Repr

namespace LogLine

def debug (text : String) : LogLine := ⟨.debug, text⟩

def warn (text : String) : LogLine := ⟨.warn, text⟩

def render (l : LogLine) : String := l.level.name ++ " " ++ l.text

end LogLine

namespace RungContext

/-- The nodes that are looked at before one cannot be lowered, and that one. -/
def visited (cx : RungContext) : List Node → List Node
  | [] => []
  | n :: rest =>
    match cx.emit n with
    | .ok _ => n :: cx.visited rest
    | .error _ => [n]

end RungContext

namespace Outcome

/-- What is told of the parts of a rung, once its markers are paired. -/
def partLines (o : Outcome) : List LogLine :=
  let cx := o.rung.context o.index o.offset
  match cx.topology.pairs with
  | .error _ => []
  | .ok pairs =>
    let groups :=
      if pairs.isEmpty then [] else [.debug s!"rung {o.index}: {pairs.length} parallel groups"]
    groups ++ (cx.visited o.rung.nodes).map fun n =>
      .debug s!"rung {o.index}: {n.kind.tag} `{n.id}`"

def resultLines (o : Outcome) : List LogLine :=
  match o.result with
  | .ok lowered =>
    let offset := Decimal.Format.plain.render o.offset.y
    .debug s!"rung {o.index} (`{o.rung.id}`): {lowered.elements.length} elements at y+{offset}"
      :: lowered.warnings.map fun w => .warn w.message
  | .error cause => [.warn (Failure.message ⟨o.index, o.rung.id, cause⟩)]

def logLines (o : Outcome) : List LogLine := o.partLines ++ o.resultLines

end Outcome

def lowerLog (config : Config) (rungs : List Rung) : List LogLine :=
  .debug s!"Serializing {rungs.length} rungs, dialect: {config.dialect.name}"
    :: (outcomes rungs).flatMap Outcome.logLines

namespace Program

def exportLog (p : Program) (codec : Codec) : List LogLine :=
  match p.exportAs codec with
  | .error _ => []
  | .ok e =>
    let summary := s!"Exported POU `{p.name}` as {codec.formatName}: {e.pou.body.size} elements, "
      ++ s!"{e.warnings.length} warnings, {e.failures.length} failed rungs"
    p.duplicateWarnings.map (fun w => .warn w.message) ++ lowerLog codec.config p.rungs
      ++ [.debug summary]

end Program

end LadderDiagram
