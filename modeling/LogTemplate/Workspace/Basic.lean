import LogTemplate.Path
import LogTemplate.Workspace.Fault

/-!
A tree of files as a value. A location is the list of names from the root of the tree; a path leads
to a location, from the root if it is absolute and from the current folder if it is not.
-/

namespace LogTemplate

/-- The names on the way from the root of the tree. -/
abbrev Location := List Text

/-- A tree of files, and the folder that relative paths start from. -/
structure Workspace where
  current : Location
  files : List (Location × Bytes)
  folders : List Location
  deriving DecidableEq, Repr

namespace Workspace

/-- The content of the file at a location. -/
def fileAt? (workspace : Workspace) (location : Location) : Option Bytes :=
  workspace.files.lookup location

def isFolder (workspace : Workspace) (location : Location) : Bool :=
  location.isEmpty || workspace.folders.contains location

/-- The files with a content put in its place, or at the end when the location is new. -/
def setFile (location : Location) (content : Bytes) :
    List (Location × Bytes) → List (Location × Bytes)
  | [] => [(location, content)]
  | (l, c) :: files =>
      if l = location then (location, content) :: files
      else (l, c) :: setFile location content files

/-- The workspace with a new content at a location. -/
def write (workspace : Workspace) (location : Location) (content : Bytes) : Workspace :=
  { workspace with files := setFile location content workspace.files }

theorem fileAt?_write (workspace : Workspace) (written location : Location) (content : Bytes) :
    (workspace.write written content).fileAt? location =
      if location = written then some content else workspace.fileAt? location := by
  simp only [fileAt?, write]
  generalize workspace.files = files
  induction files with
  | nil =>
      by_cases h : location = written
      · simp [setFile, h]
      · simp [setFile, List.lookup_cons, h, beq_false_of_ne h]
  | cons entry files ih =>
      obtain ⟨l, c⟩ := entry
      by_cases hl : l = written
      · subst hl
        by_cases h : location = l
        · simp [setFile, h]
        · simp [setFile, List.lookup_cons, h, beq_false_of_ne h]
      · by_cases h : location = l
        · subst h
          simp [setFile, hl]
        · simp [setFile, hl, List.lookup_cons, beq_false_of_ne h, ih]

/-- The workspace with a folder at a location and at all those above it. -/
def addFolder (workspace : Workspace) (location : Location) : Workspace :=
  { workspace with
    folders := (List.range location.length).map (fun n => location.take (n + 1)) ++
      workspace.folders }

/-- The workspace with a file at a location and the folders on the way to it. -/
def addFile (workspace : Workspace) (location : Location) (content : Bytes) : Workspace :=
  (workspace.addFolder location.dropLast).write location content

/-- The workspace without the file at a location. -/
def removeFile (workspace : Workspace) (location : Location) : Workspace :=
  { workspace with files := workspace.files.filter fun (l, _) => l ≠ location }

/-- The location that one more piece of a path leads to. Only from a folder does a path lead on. -/
def step (workspace : Workspace) (location : Location) (piece : Text) :
    Except FileFault Location :=
  if workspace.isFolder location then
    if piece = [] ∨ piece = ['.'] then .ok location
    else if piece = ['.', '.'] then .ok location.dropLast
    else .ok (location ++ [piece])
  else if (workspace.fileAt? location).isSome then .error .notFolder
  else .error .notFound

def origin (workspace : Workspace) (path : Path) : Location :=
  if path.isAbsolute then [] else workspace.current

/-- The location that a path leads to. Nothing need be there. An empty path leads nowhere. -/
def resolve (workspace : Workspace) (path : Path) : Except FileFault Location :=
  if path.text.isEmpty then .error .notFound
  else path.pieces.foldlM workspace.step (workspace.origin path)

/-- The location and the content of the file that a path leads to. -/
def open? (workspace : Workspace) (path : Path) : Except FileFault (Location × Bytes) := do
  let location ← workspace.resolve path
  match workspace.fileAt? location with
  | some content => return (location, content)
  | none => .error (if workspace.isFolder location then .isFolder else .notFound)

def isFile (workspace : Workspace) (path : Path) : Bool :=
  (workspace.open? path).isOk

/-- The text of the file that a path leads to. -/
def readText (workspace : Workspace) (path : Path) : Except ReadFault Text :=
  match workspace.open? path with
  | .error fault => .error (.file fault)
  | .ok (_, content) => (Utf8.decode content).mapError fun _ => .notText

/-- The paths of the files in a folder and in the folders below it, given the path that leads to
the folder. -/
def filesUnder (workspace : Workspace) (folder : Path) (location : Location) : List Path :=
  workspace.files.filterMap fun (l, _) =>
    if location.isPrefixOf l && l.length ≠ location.length then
      some (folder.join (['/'].intercalate (l.drop location.length)))
    else none

def absolute (location : Location) : Path where
  text := '/' :: ['/'].intercalate location

end Workspace

end LogTemplate
