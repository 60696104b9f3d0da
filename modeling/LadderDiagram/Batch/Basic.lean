import LadderDiagram.Export.Basic
import LadderDiagram.Lowering.Issue.Write
import LadderDiagram.Snapshot.Load

/-!
# Export of a folder

Every snapshot in a folder is exported in three formats, each with a report
beside it, into the subfolder `exported`. What is printed and what is written
follows from the names and contents of the files alone; files are taken in the
order of their names, and one that does not load does not stop the rest. A result
that cannot be written stops the run.
-/

namespace LadderDiagram.Batch

structure CaseFile where
  name : String
  content : ByteArray

/-- What there is at the path of the folder. -/
inductive Folder where
  | missing
  /-- The subfolder for results cannot be made. -/
  | blocked (reason : String)
  /-- The files of the folder, and the names in the subfolder that other folders bear. -/
  | files (files : List CaseFile) (taken : List String)

/-- Why a result cannot be written. -/
inductive WriteError where
  /-- A folder bears its name. -/
  | isFolder
  | nameTooLong
  deriving DecidableEq, Repr

def WriteError.message : WriteError → String
  | isFolder => "Is a directory (os error 21)"
  | nameTooLong => "File name too long (os error 36)"

/-- Why a run stops before its end. -/
inductive Stop where
  | noFolder (folder : String)
  | blocked (reason : String)
  | exportNotWritten (path : String) (cause : WriteError)
  | reportNotWritten (cause : WriteError)
  deriving DecidableEq, Repr

def Stop.message : Stop → String
  | noFolder folder => "case dir not found: " ++ folder
  | blocked reason => reason
  | exportNotWritten path cause => s!"failed to write {path}\n\nCaused by:\n    {cause.message}"
  | reportNotWritten cause => cause.message

/-- What a run prints and writes. -/
structure Run where
  lines : List String := []
  /-- Paths and contents, in the order of writing. -/
  written : List (String × String) := []
  /-- What stopped the run. -/
  stop : Option Stop := none
  deriving DecidableEq

namespace Run

def exitCode (r : Run) : UInt32 := if r.stop.isSome then 1 else 0

def errors (r : Run) : List String := r.stop.toList.map fun stop => "Error: " ++ stop.message

def append (a b : Run) : Run :=
  match a.stop with
  | some _ => a
  | none => { lines := a.lines ++ b.lines, written := a.written ++ b.written, stop := b.stop }

instance : Append Run := ⟨append⟩

def concat (runs : List Run) : Run := runs.foldr append {}

end Run

def defaultFolder : String := "cases"

def joinPath (folder name : String) : String :=
  if folder.isEmpty || folder.endsWith "/" then folder ++ name else folder ++ "/" ++ name

/-- The characters before and behind the last dot of a name; a name that only begins with
a dot has none. -/
def splitExtension (name : String) : String × Option String :=
  let chars := name.toList.reverse
  match chars.dropWhile (· ≠ '.') with
  | _ :: stem@(_ :: _) =>
    (String.ofList stem.reverse, some (String.ofList (chars.takeWhile (· ≠ '.')).reverse))
  | _ => (name, none)

namespace CaseFile

def stem (f : CaseFile) : String := (splitExtension f.name).1

def isSnapshot (f : CaseFile) : Bool := (splitExtension f.name).2.any (·.toLower == "json")

end CaseFile

/-- Where results are written: the path of a folder, and the names in it that folders bear. -/
structure Results where
  path : String
  taken : List String

namespace Results

/-- How many bytes the name of a file may have. -/
def nameLimit : Nat := 255

/-- Why no file of the given name can be written, if so. -/
def refusal? (r : Results) (name : String) : Option WriteError :=
  if name ∈ r.taken then some .isFolder
  else if nameLimit < name.utf8ByteSize then some .nameTooLong
  else none

end Results

/-- One of the formats in which every snapshot is exported. -/
structure Target where
  label : String
  extension : String
  codec : Codec

def targets : List Target :=
  [⟨"openplc", "xml", .plcOpen (.ofDialect .openPlc)⟩,
    ⟨"codesys", "xml", .plcOpen (.ofDialect .codesys)⟩,
    ⟨"body", "json", .json⟩]

/-- The report that is written beside an export. -/
def report (e : Export) : String :=
  let value := Json.Value.object
    [("pou", .text e.pou.name), ("elements", .natural e.pou.body.size),
      ("warnings", .list (e.warnings.map Warning.toValue)),
      ("failures", .list (e.failures.map Failure.toValue))]
  value.sorted.pretty 0

def summary (stem : String) (t : Target) (path : String) (e : Export) : List String :=
  let b := e.pou.body
  [s!"[ok] {stem} {t.label} ({t.codec.formatName}) -> {path}",
    s!"  POU='{e.pou.name}' rails={b.leftRails.length}/{b.rightRails.length} "
      ++ s!"blocks={b.blocks.length} contacts={b.contacts.length} coils={b.coils.length} "
      ++ s!"variables={b.inVariables.length}/{b.outVariables.length}"]
    ++ e.warnings.map (fun w => "  - warning: " ++ w.message)
    ++ e.failures.map (fun f => "  - dropped: " ++ f.message)

def exportTo (results : Results) (stem : String) (p : Program) (t : Target) : Run :=
  match p.exportAs t.codec with
  | .error e => { lines := [s!"[fail] {stem} {t.label}: {e.message}"] }
  | .ok e =>
    let name := s!"{stem}_{t.label}.{t.extension}"
    let reportName := s!"{stem}_{t.label}.report.json"
    let path := joinPath results.path name
    match results.refusal? name, results.refusal? reportName with
    | some cause, _ => { stop := some (.exportNotWritten path cause) }
    | none, some cause => { written := [(path, e.text)], stop := some (.reportNotWritten cause) }
    | none, none =>
      { lines := summary stem t path e
        written := [(path, e.text), (joinPath results.path reportName, report e)] }

def exportFile (folder : String) (results : Results) (f : CaseFile) : Run :=
  match Program.load (some f.content) with
  | .error e => { lines := [s!"[fail] {f.stem}: {e.message (joinPath folder f.name)}"] }
  | .ok p => .concat (targets.map (exportTo results f.stem p))

def resultsPath (folder : String) : String := joinPath folder "exported"

def run (folder : String) : Folder → Run
  | .missing => { stop := some (.noFolder folder) }
  | .blocked reason => { stop := some (.blocked reason) }
  | .files files taken =>
    match (files.filter CaseFile.isSnapshot).mergeSort fun a b => decide (a.name ≤ b.name) with
    | [] => { lines := [s!"No .json snapshots found in {folder}"] }
    | cases => .concat (cases.map (exportFile folder ⟨resultsPath folder, taken⟩))

end LadderDiagram.Batch
