import LogTemplate.Console.Json
import LogTemplate.Console.Style
import LogTemplate.Diff.Lines
import LogTemplate.Edit.Basic

namespace LogTemplate.Console

/-- The text with its lines after the first one moved to the right. -/
def indentRest (text : String) : String :=
  String.ofList (text.toList.flatMap fun c => if c = '\n' then "\n    ".toList else [c])

/-- The report of an error that ends the program, with what lies behind it. -/
def errorReport (message : String) (cause? : Option String) : String :=
  match cause? with
  | none => s!"Error: {message}\n"
  | some cause => s!"Error: {message}\n\nCaused by:\n    {indentRest cause}\n"

def describe (colored : Bool) (file : Path) (buffer : Buffer) (proposal : Proposal) : String :=
  let found := String.ofList ((buffer.slice? proposal.span).toOption.join.getD [])
  let offered := String.ofList proposal.replacement
  paint colored .yellow "⊙" ++ s!" {file.display}:{proposal.span.start.line + 1}\n" ++
    "  " ++ paint colored .red "-" ++ s!" {indentRest found}\n" ++
    "  " ++ paint colored .green "+" ++ s!" {offered}\n"

def diffLine (colored : Bool) : Diff.Mark × Text → String
  | (.keep, line) => " " ++ String.ofList (Diff.closed line)
  | (.remove, line) => paint colored .red ("-" ++ String.ofList (Diff.closed line))
  | (.insert, line) => paint colored .green ("+" ++ String.ofList (Diff.closed line))

/-- The difference between two texts of a file. -/
def diffReport (colored : Bool) (file : Path) (old new : Text) : String :=
  let script := Diff.compare (Diff.lines old) (Diff.lines new)
  "\n" ++ paint colored .dim s!"--- {file.display} (original)" ++ "\n" ++
    paint colored .dim s!"+++ {file.display} (formatted)" ++ "\n" ++
    String.join (script.map (diffLine colored))

/-- The line for a refusal or another failure that the work goes on after. -/
def failureLine (colored : Bool) (message : String) : String :=
  paint colored .red "✗" ++ s!" {message}\n"

end LogTemplate.Console
