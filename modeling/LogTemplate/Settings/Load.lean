import LogTemplate.Settings.Decode
import LogTemplate.Workspace.Basic

namespace LogTemplate.Settings

inductive Origin where
  | named (path : Path)
  | found (path : Path)
  | inline
  deriving DecidableEq, Repr

def Origin.display : Origin → String
  | .named path => path.display
  | .found path => path.display ++ " (found by search)"
  | .inline => "<inline>"

inductive LoadError where
  | unreadable (origin : Origin) (fault : ReadFault)
  /-- The text is no TOML, or not of the expected form. -/
  | malformed (origin : Origin)
  | rejected (origin : Origin) (issues : List Issue)
  deriving DecidableEq, Repr

namespace LoadError

def origin : LoadError → Origin
  | .unreadable origin _ => origin
  | .malformed origin => origin
  | .rejected origin _ => origin

def cause : LoadError → String
  | .unreadable _ fault => fault.message
  | .malformed _ => "not a settings document"
  | .rejected _ issues => "\n".intercalate (issues.map Issue.message)

def message (error : LoadError) : String :=
  let origin := error.origin.display
  match error with
  | .unreadable .. => s!"cannot read formatter config {origin}: {error.cause}"
  | .malformed .. => s!"formatter config {origin} is not valid: {error.cause}"
  | .rejected _ issues =>
      s!"formatter config {origin} has {issues.length} rejected setting(s):\n{error.cause}"

end LoadError

/-- The settings of a text, when nothing is wrong with them. -/
def ofText (origin : Origin) (text : Text) : Except LoadError Settings :=
  match decode? text with
  | none => .error (.malformed origin)
  | some settings =>
      if settings.issues.isEmpty then .ok settings else .error (.rejected origin settings.issues)

def read (workspace : Workspace) (path : Path) (origin : Origin) : Except LoadError Settings :=
  match workspace.readText path with
  | .error fault => .error (.unreadable origin fault)
  | .ok text => ofText origin text

/-- The settings of the file that the user named. -/
def load (workspace : Workspace) (path : Path) : Except LoadError Settings :=
  read workspace path (.named path)

def fileName : Text := "logger-formatter.toml".toList

/-- The nearest settings file in a folder or above it. -/
def discover (workspace : Workspace) (start : Path) : Option Path :=
  (start.ancestors.map (·.join fileName)).find? workspace.isFile

/-- The nearest settings file in a folder or above it, with its settings. -/
def loadDiscovered (workspace : Workspace) (start : Path) :
    Except LoadError (Option (Path × Settings)) :=
  match discover workspace start with
  | none => .ok none
  | some path => (read workspace path (.found path)).map fun settings => some (path, settings)

end LogTemplate.Settings
