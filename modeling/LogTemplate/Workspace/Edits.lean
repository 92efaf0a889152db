import LogTemplate.Edit.Batch
import LogTemplate.Workspace.Basic

namespace LogTemplate.Workspace

/-- The location and the text of the file that edits are for. -/
def openText (workspace : Workspace) (file : Path) : Except EditError (Location × Text) := do
  let (location, content) ← (workspace.open? file).mapError EditError.unreadable
  let text ← (Utf8.decode content).mapError EditError.notText
  return (location, text)

/-- The results of the edits of one file, and the workspace after them. -/
def applyToFile (workspace : Workspace) (file : Path) (edits : List Edit) :
    Except EditError (List EditResult × Workspace) := do
  let (location, text) ← workspace.openText file
  let (updated, results) ← Edit.applyAll text edits
  return (results, if updated = text then workspace else workspace.write location updated.toBytes)

/-- The result of one edit, and the workspace after it. -/
def applyEdit (workspace : Workspace) (edit : Edit) :
    Except EditError (EditResult × Workspace) := do
  let (_, text) ← workspace.openText edit.file
  let (_, after) ← workspace.applyToFile edit.file [edit]
  return (edit.result text, after)

/-- The edits of each file in turn, with their places in the list. The first file whose edits do not
apply ends the work: it and the files after it stay as they are. -/
def applyFiles (edits : List (Edit × Nat)) :
    List Path → Workspace → Except EditError (List (Nat × EditResult)) × Workspace
  | [], workspace => (.ok [], workspace)
  | file :: files, workspace =>
      let mine := edits.filter fun (edit, _) => edit.file.same file
      match workspace.applyToFile file (mine.map Prod.fst) with
      | .error error => (.error error, workspace)
      | .ok (results, workspace) =>
          let (rest, workspace) := applyFiles edits files workspace
          (rest.map fun rest => (mine.map Prod.snd).zip results ++ rest, workspace)

/-- The results of edits of any number of files, in the order of the list, and the workspace after
them. Files are taken in the order of their paths. -/
def applyBatch (workspace : Workspace) (edits : List Edit) :
    Except EditError (List EditResult) × Workspace :=
  let files := Path.sorted (edits.map Edit.file)
  let (results, workspace) := applyFiles edits.zipIdx files workspace
  (results.map fun results => (List.range edits.length).filterMap (results.lookup ·), workspace)

end LogTemplate.Workspace
