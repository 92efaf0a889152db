import LogTemplate.Console.Invocation
import LogTemplate.Console.Output
import LogTemplate.Edit.Plan
import LogTemplate.Settings.Load
import LogTemplate.Workspace.Edits

/-!
Running the commands on a workspace. A run is a value: what it prints, how it ends, and the files
after it.
-/

namespace LogTemplate.Console

structure Outcome where
  exit : Nat
  out : String
  err : String
  workspace : Workspace

/-- The end of a run that could not do its work. -/
def Outcome.failed (workspace : Workspace) (message : String) (cause? : Option String) : Outcome :=
  { exit := 1, out := "", err := errorReport message cause?, workspace }

/-- The files that paths name: each file itself, and of a folder the files below it that have one of
the extensions. A path that leads nowhere is the error. -/
def collectOne (workspace : Workspace) (extensions : List Text) (path : Path) :
    Except Path (List Path) :=
  if workspace.isFile path then .ok [path]
  else
    match workspace.resolve path with
    | .error _ => .error path
    | .ok location =>
        if workspace.isFolder location then
          .ok ((workspace.filesUnder path location).filter fun file =>
            file.extension?.any extensions.contains)
        else .error path

/-- The files that paths name, in the order of their paths, each path once. -/
def collect (workspace : Workspace) (extensions : List Text) (paths : List Path) :
    Except Path (List Path) :=
  (paths.mapM (collectOne workspace extensions)).map fun files => Path.sorted files.flatten

/-- What is printed for one file, and what is counted. -/
structure FileReport where
  out : String := ""
  err : String := ""
  /-- The statements for which something is offered, or which were replaced. -/
  statements : Nat := 0
  /-- The statements that were as they should be. -/
  alreadyApplied : Nat := 0
  failed : Nat := 0

/-- The lines for refusals in a file. -/
def refusalLines (colored : Bool) (file : Path) (refusals : List Refusal) : String :=
  String.join (refusals.map fun refusal =>
    failureLine colored s!"{file.display}: {refusal.message}")

/-- The report of a file that cannot be read. -/
def unreadable (file : Path) (fault : ReadFault) : String :=
  s!"failed to read {file.display}: {fault.message}"

def checkFile (colored : Bool) (settings : Settings) (workspace : Workspace) (file : Path) :
    FileReport :=
  match workspace.readText file with
  | .error fault => { err := failureLine colored (unreadable file fault), failed := 1 }
  | .ok text =>
      let buffer := Buffer.ofText text
      let report := Formatter.scan settings buffer.contents
      { out := String.join (report.proposals.map (describe colored file buffer))
        err := refusalLines colored file report.refusals
        statements := report.proposals.length
        failed := report.refusals.length }

/-- The sum of a count over all files. -/
def total (count : FileReport → Nat) (reports : List FileReport) : Nat :=
  reports.foldl (fun sum report => sum + count report) 0

def summary (colored : Bool) (lines : List String) : String :=
  "\n" ++ paint colored .bold "Summary:" ++ "\n" ++
    String.join (lines.map fun line => s!"  {line}\n")

/-- Reports all that is offered in the files. -/
def check (colored : Bool) (settings : Settings) (workspace : Workspace) (files : List Path) :
    Outcome :=
  let reports := files.map (checkFile colored settings workspace)
  let pending := total FileReport.statements reports
  let failed := total FileReport.failed reports
  { exit := if pending = 0 ∧ failed = 0 then 0 else 1
    out := String.join (reports.map FileReport.out) ++ summary colored [
      s!"{files.length} files checked",
      s!"{paint colored .yellow (toString pending)} to rewrite",
      s!"{paint colored .red (toString failed)} failed"]
    err := String.join (reports.map FileReport.err)
    workspace }

/-- The lines for a file whose edits were applied, or would be. -/
def fixedLines (colored dryRun diff : Bool) (file : Path) (old new : Text)
    (statements alreadyApplied : Nat) : String :=
  let action := if dryRun then "Would rewrite" else "Rewrote"
  (if statements = 0 then ""
    else paint colored .green "✓" ++ s!" {file.display}: {action} {statements} statement(s)\n") ++
  (if alreadyApplied = 0 then ""
    else paint colored .yellow "⊙" ++
      s!" {file.display}: Already applied to {alreadyApplied} statement(s)\n") ++
  (if diff && statements ≠ 0 then diffReport colored file old new else "")

/-- The result counts as one that changed nothing. -/
def isAlreadyApplied : EditResult → Bool
  | .alreadyApplied _ => true
  | .applied _ _ => false

/-- The new text of a file and the results of its edits, and the workspace after them. Without
writing, the workspace stays as it is. -/
def applyPlan (dryRun : Bool) (workspace : Workspace) (file : Path) (text : Text)
    (edits : List Edit) : Except String (Text × List EditResult) × Workspace :=
  if dryRun then ((Edit.applyAll text edits).mapError EditError.message, workspace)
  else
    match workspace.applyBatch edits with
    | (.error error, after) => (.error error.message, after)
    | (.ok results, after) =>
        match after.readText file with
        | .error fault => (.error s!"failed to re-read {file.display}: {fault.message}", after)
        | .ok updated => (.ok (updated, results), after)

/-- Puts all that is offered in a file in its place. -/
def fixFile (colored dryRun diff : Bool) (settings : Settings) (workspace : Workspace)
    (file : Path) : FileReport × Workspace :=
  let failure (err message : String) : FileReport :=
    { err := err ++ failureLine colored s!"{file.display}: {message}", failed := 1 }
  match workspace.readText file with
  | .error fault => (failure "" (unreadable file fault), workspace)
  | .ok text =>
      let plan := Plan.ofBuffer settings file (.ofText text)
      let err := refusalLines colored file plan.refusals
      match plan.all with
      | .error error => (failure err error.message, workspace)
      | .ok [] => ({ err, failed := plan.refusals.length }, workspace)
      | .ok edits =>
          match applyPlan dryRun workspace file text edits with
          | (.error message, after) => (failure err message, after)
          | (.ok (updated, results), after) =>
              let alreadyApplied := results.countP isAlreadyApplied
              let statements := results.length - alreadyApplied
              ({ out := fixedLines colored dryRun diff file text updated statements alreadyApplied
                 err
                 statements
                 alreadyApplied
                 failed := plan.refusals.length }, after)

/-- Works on the files one after the other. -/
def fixFiles (colored dryRun diff : Bool) (settings : Settings) :
    List Path → Workspace → List FileReport × Workspace
  | [], workspace => ([], workspace)
  | file :: files, workspace =>
      let (report, workspace) := fixFile colored dryRun diff settings workspace file
      let (reports, workspace) := fixFiles colored dryRun diff settings files workspace
      (report :: reports, workspace)

/-- Puts all that is offered in the files in its place. -/
def fix (colored dryRun diff : Bool) (settings : Settings) (workspace : Workspace)
    (files : List Path) : Outcome :=
  let (reports, after) := fixFiles colored dryRun diff settings files workspace
  let failed := total FileReport.failed reports
  let changed := reports.countP fun report => report.statements ≠ 0
  let title :=
    if dryRun then
      paint colored .cyan "[DRY RUN - showing what would be rewritten]" ++ "\n"
    else ""
  let verb := if dryRun then "would be rewritten" else "rewritten"
  let statements := toString (total FileReport.statements reports)
  let alreadyApplied := toString (total FileReport.alreadyApplied reports)
  { exit := if failed = 0 then 0 else 1
    out := title ++ String.join (reports.map FileReport.out) ++ summary colored [
      s!"{paint colored .green statements} {verb}",
      s!"{paint colored .yellow alreadyApplied} already applied",
      s!"{changed} files changed",
      s!"{paint colored .red (toString failed)} failed"]
    err := String.join (reports.map FileReport.err)
    workspace := after }

/-- Shows what is offered for the statement at a line, which counts from one. -/
def suggest (colored : Bool) (settings : Settings) (workspace : Workspace) (file : Path)
    (line : Nat) (json : Bool) : Outcome :=
  let shown (out : String) : Outcome := { exit := 0, out, err := "", workspace }
  let inJson (lines : List String) : Outcome := shown ("\n".intercalate lines ++ "\n")
  if line = 0 then .failed workspace "line numbers start at 1" none
  else
    match workspace.readText file with
    | .error fault => .failed workspace s!"failed to read {file.display}" (some fault.message)
    | .ok text =>
        let buffer := Buffer.ofText text
        if buffer.lineCount < line then
          .failed workspace
            s!"line {line} is past the end of {file.display} ({buffer.lineCount} lines)" none
        else
          match Formatter.propose settings buffer.contents (line - 1) with
          | .ok (.proposed proposal) =>
              if json then inJson (Json.proposal proposal)
              else shown (describe colored file buffer proposal)
          | .ok (.skipped reason) =>
              if json then inJson (Json.skip reason)
              else shown (paint colored .cyan "⊘" ++
                s!" {file.display}:{line}: No rewrite ({reason.message})\n")
          | .error refusal =>
              { exit := 1
                out := ""
                err := failureLine colored s!"{file.display}:{line}: {refusal.message}"
                workspace }

/-- The settings of a run: those of the file that the user named, else those of the nearest settings
file, else the defaults. -/
def settingsFor (workspace : Workspace) : Option Path → Except Settings.LoadError Settings
  | some path => Settings.load workspace path
  | none =>
      (Settings.loadDiscovered workspace (Workspace.absolute workspace.current)).map fun
        | some (_, settings) => settings
        | none => .default

def execute (colored : Bool) (workspace : Workspace) (invocation : Invocation) : Outcome :=
  match settingsFor workspace invocation.config with
  | .error error => .failed workspace error.message (some error.cause)
  | .ok settings =>
      let onFiles (paths : List Path) (work : List Path → Outcome) : Outcome :=
        match collect workspace settings.extensions paths with
        | .error path => .failed workspace s!"No such file or directory: {path.display}" none
        | .ok files => work files
      match invocation.command with
      | .suggest file line json => suggest colored settings workspace file line json
      | .check paths => onFiles paths (check colored settings workspace)
      | .fix paths dryRun diff => onFiles paths (fix colored dryRun diff settings workspace)

def usage : String :=
  "Usage: logger-formatter [OPTIONS] <COMMAND>\n\n" ++
  "Commands:\n" ++
  "  suggest  Show the rewrite offered for the statement at one line\n" ++
  "  check    Report every statement that would be rewritten\n" ++
  "  fix      Rewrite every eligible statement in place\n\n" ++
  "Options:\n" ++
  "  -c, --config <CONFIG>  Config file (defaults to the nearest logger-formatter.toml)\n" ++
  "  -v, --verbose...       Increase log verbosity (-v debug, -vv trace)\n" ++
  "  -h, --help             Print help\n" ++
  "  -V, --version          Print version\n"

/-- The name and the version of the program. -/
def version : String := "logger-formatter 0.1.0\n"

/-- What the program does with its arguments. -/
def run (colored : Bool) (workspace : Workspace) (arguments : List Text) : Outcome :=
  match Invocation.parse arguments with
  | .error .version => { exit := 0, out := version, err := "", workspace }
  | .error .help => { exit := 0, out := usage, err := "", workspace }
  | .error .usage => { exit := 2, out := "", err := usage, workspace }
  | .ok invocation => execute colored workspace invocation

end LogTemplate.Console
