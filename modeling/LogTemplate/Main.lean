import LogTemplate.Console.Session

/-!
The program. It takes a picture of the files that the arguments name, runs the command on it, and
writes back the files that the command changed.
-/

namespace LogTemplate.Program

/-- The workspace with what lies at a location: a file, or a folder and, where `deep` is set, all
that lies below it. -/
partial def visit (deep : Bool) (workspace : Workspace) (location : Location) : IO Workspace := do
  let path := (← IO.currentDir) / (Workspace.absolute location).display
  if ← path.isDir then
    let workspace := workspace.addFolder location
    if deep then
      (← path.readDir).foldlM (fun workspace entry =>
        visit true workspace (location ++ [entry.fileName.toList])) workspace
    else return workspace
  else if ← path.pathExists then
    let content ← IO.FS.readBinFile path
    return workspace.addFile location content.toList
  else return workspace

/-- The locations that a path passes on its way. -/
def way (start : Location) (path : Path) : List Location :=
  let start := if path.isAbsolute then [] else start
  (path.pieces.foldl (fun locations piece =>
    let last := locations.headD start
    let next :=
      if piece = [] ∨ piece = ['.'] then last
      else if piece = ['.', '.'] then last.dropLast
      else last ++ [piece]
    next :: locations) [start]).reverse

/-- The workspace with what a path leads to. -/
def visitPath (workspace : Workspace) (path : Path) : IO Workspace := do
  let locations := way workspace.current path
  let workspace ← locations.dropLast.foldlM (visit false) workspace
  (locations.getLast?.toList).foldlM (visit true) workspace

/-- The workspace with the settings files above the current folder. -/
def visitSettings (workspace : Workspace) : IO Workspace := do
  let current := workspace.current
  let folders := (List.range (current.length + 1)).map fun n => current.take n
  let workspace := folders.foldl Workspace.addFolder workspace
  folders.foldlM (fun workspace folder => visit false workspace (folder ++ [Settings.fileName]))
    workspace

/-- Colours are on when they are forced, or else when nothing speaks against them and the output is
a terminal. -/
def wantsColor : IO Bool := do
  let isOn (value : String) : Bool := value ≠ "0"
  if ((← IO.getEnv "CLICOLOR_FORCE").map isOn).getD false then return true
  if (← IO.getEnv "NO_COLOR").isSome then return false
  return ((← IO.getEnv "CLICOLOR").map isOn).getD true && (← (← IO.getStdout).isTty)

/-- Writes the files that differ from those before, each by way of a file beside it. -/
def writeBack (before after : Workspace) : IO Unit :=
  after.files.forM fun (location, content) => do
    if before.fileAt? location ≠ some content then
      let path := (Workspace.absolute location).display
      let beside := path ++ ".tmp"
      IO.FS.writeBinFile beside (ByteArray.mk content.toArray)
      IO.FS.rename beside path

end LogTemplate.Program

open LogTemplate LogTemplate.Program in
def main (arguments : List String) : IO UInt32 := do
  let arguments := arguments.map String.toList
  let current := (Path.pieces ⟨(← IO.currentDir).toString.toList⟩).filter (· ≠ [])
  let empty : Workspace := { current, files := [], folders := [] }
  let named :=
    match Console.Invocation.parse arguments with
    | .ok invocation => invocation.config.toList ++ invocation.command.paths
    | .error _ => []
  let workspace ← named.foldlM visitPath (← visitSettings empty)
  let outcome := Console.run (← wantsColor) workspace arguments
  writeBack workspace outcome.workspace
  IO.print outcome.out
  IO.eprint outcome.err
  return UInt32.ofNat outcome.exit
