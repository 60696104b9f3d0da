import LadderDiagram.Batch.Basic

/-!
# Command line

Exports the snapshots of the folder that is named, or of `cases`. All that is
printed and written is decided in `Batch.run`; here files are read and written.
-/

namespace LadderDiagram.Batch

/-- The entries of a folder with their types; one that cannot be looked at is left out. -/
def readEntries (folder : String) : IO (List (IO.FS.DirEntry × IO.FS.FileType)) := do
  let here : IO.FS.DirEntry := { root := folder, fileName := "" }
  let mut entries := #[]
  for entry in ← here.root.readDir do
    let type? ← try pure (some (← entry.path.metadata).type) catch _ => pure none
    if let some type := type? then
      entries := entries.push (entry, type)
  return entries.toList

/-- Reads a folder, once there is room for the results in it. -/
def readFolder (folder : String) : IO Folder := do
  let here : IO.FS.DirEntry := { root := folder, fileName := "" }
  if ← here.root.pathExists then
    try
      IO.FS.createDirAll (resultsPath folder)
      let files ← ((← readEntries folder).filter (·.2 == .file)).mapM fun (entry, _) => do
        return ⟨entry.fileName, ← IO.FS.readBinFile entry.path⟩
      let taken := (← readEntries (resultsPath folder)).filter (·.2 == .dir)
      return .files files (taken.map (·.1.fileName))
    catch e => return .blocked (toString e)
  else return .missing

end LadderDiagram.Batch

open LadderDiagram in
def main (args : List String) : IO UInt32 := do
  let folder := args.headD Batch.defaultFolder
  let run := Batch.run folder (← Batch.readFolder folder)
  for (path, text) in run.written do
    IO.FS.writeFile path text
  for line in run.lines do
    IO.println line
  for line in run.errors do
    IO.eprintln line
  return run.exitCode
