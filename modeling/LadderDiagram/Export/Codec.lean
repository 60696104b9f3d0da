import LadderDiagram.Body.Dialect
import LadderDiagram.Body.Markup
import LadderDiagram.Body.Write

/-!
# Formats of exported units

A `Codec` writes a program unit in one format, and says how bodies are to be
lowered for it.
-/

namespace LadderDiagram

inductive Codec where
  /-- Markup for the tool that the configuration names. -/
  | plcOpen (config : Config)
  /-- A document with one member on a line. -/
  | json
  deriving DecidableEq

namespace Codec

def config : Codec → Config
  | plcOpen config => config
  | json => .ofDialect .openPlc

def formatName : Codec → String
  | plcOpen config =>
    match config.dialect with
    | .openPlc => "plcopen-xml"
    | .codesys => "codesys-xml"
  | json => "json"

def encode (c : Codec) (p : Pou) : String :=
  match c with
  | plcOpen _ => p.markupDocument
  | json => p.toValue.pretty 0

end Codec

end LadderDiagram
