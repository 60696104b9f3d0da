import LadderDiagram.Snapshot.Read

/-!
# Loading snapshots

A snapshot in a file: the file must be there, hold UTF-8, and hold a program.
-/

namespace LadderDiagram

inductive LoadError where
  | missing
  | notText
  | malformed (fault : Json.Fault)
  deriving DecidableEq

namespace LoadError

def reason : LoadError → String
  | missing => "No such file or directory (os error 2)"
  | notText => "stream did not contain valid UTF-8"
  | malformed fault => fault.message

def message (path : String) : LoadError → String
  | malformed fault =>
    s!"Failed to parse ladder snapshot JSON from: {path}: " ++ fault.message
  | e => s!"Failed to read ladder snapshot from: {path}: " ++ e.reason

end LoadError

/-- The program in a file of the given content, if there is such a file. -/
def Program.load (content : Option ByteArray) : Except LoadError Program :=
  match content with
  | none => .error .missing
  | some bytes =>
    match String.fromUTF8? bytes with
    | none => .error .notText
    | some s => (Program.parse s).mapError .malformed

end LadderDiagram
