import LogTemplate.Call.Basic
import LogTemplate.Call.Shape
import LogTemplate.Proposal.Basic
import LogTemplate.Settings.Basic

namespace LogTemplate.Formatter

/-- A line, empty past the last one. -/
def lineAt (lines : List Text) (index : Nat) : Text :=
  lines[index]?.getD []

/-- The columns before the first character that is neither a space nor a tab. -/
def indentation (line : Text) : Nat :=
  Text.byteSize (line.takeWhile fun c => c == ' ' || c == '\t')

/-- The column past the semicolon that ends the statement on its last line, which is looked for
from column `start`. Where there is none, the line ends the statement. -/
def endColumn (line : Text) (start : Nat) : Nat :=
  let (before, after) := line.splitFrom start
  match Delimiter.cutAt ';' after with
  | some (code, _) => before.byteSize + Text.byteSize code + 1
  | none => line.trimEnd.byteSize

/-- The span of a statement: from the first column of its code to past its semicolon. -/
def spanOf (lines : List Text) (statement : Statement) : Span :=
  let start := indentation (lineAt lines statement.first)
  let searchStart := if statement.last = statement.first then start else 0
  { start := ⟨statement.first, start⟩
    stop := ⟨statement.last, endColumn (lineAt lines statement.last) searchStart⟩ }

def replacement (head : Text) (template : Template) : Text :=
  head ++ ", ".toList ++ template.text ++ ", ".toList ++ template.argumentList ++ ");".toList

/-- What is offered for the call of a standard logger. -/
def offerCall (settings : Settings) (lines : List Text) (statement : Statement) (call : Call) :
    Except Refusal Offer :=
  match call.headAndMessage settings.levelType with
  | .error .noLevel => .ok (.skipped .missingLevel)
  | .error .moreArguments => .ok (.skipped .extraArguments)
  | .ok (head, message) =>
      match Template.ofExpression settings.operandBudget (Text.trim message) with
      | .error cause => .error (.ofOperandError statement cause)
      | .ok template =>
          .ok (.proposed
            { span := spanOf lines statement
              replacement := replacement head template
              statement
              template })

/-- What is offered for a statement of a source. -/
def offer (settings : Settings) (lines : List Text) (statement : Statement) :
    Except Refusal Offer :=
  if statement.code.isEmpty then .ok (.skipped .emptyStatement)
  else if !isLoggingCall statement.code then .ok (.skipped .notLoggingCall)
  else
    match Call.split? statement.code with
    | none => .ok (.skipped .notLoggingCall)
    | some call =>
        match (Logger.resolve settings.loggers lines call.receiver).library? with
        | none => .ok (.skipped .unresolved)
        | some .log4j => .ok (.skipped .log4j)
        | some .standard =>
            if hasPlaceholder statement.code then .ok (.skipped .alreadyTemplated)
            else offerCall settings lines statement call

/-- What is offered for the statement around a line. -/
def propose (settings : Settings) (lines : List Text) (trigger : Nat) : Except Refusal Offer :=
  if trigger < lines.length then offer settings lines (Statement.locate lines trigger)
  else .error (.outOfRange trigger lines.length)

/-- All that is offered from a line on. After a proposal or a refusal the search goes on past its
statement. A statement that is skipped may have taken in the head of a block, so the search then
goes on with the next line. -/
def scanFrom (settings : Settings) (lines : List Text) (line : Nat) : Report :=
  if line < lines.length then
    let statement := Statement.locate lines line
    let past := max statement.last line + 1
    match offer settings lines statement with
    | .ok (.proposed proposal) =>
        let report := scanFrom settings lines past
        { report with proposals := proposal :: report.proposals }
    | .ok (.skipped _) => scanFrom settings lines (line + 1)
    | .error refusal =>
        let report := scanFrom settings lines past
        { report with refusals := refusal :: report.refusals }
  else { proposals := [], refusals := [] }
termination_by lines.length - line
decreasing_by all_goals omega

/-- All that is offered in a source, from top to bottom. -/
def scan (settings : Settings) (lines : List Text) : Report :=
  scanFrom settings lines 0

end LogTemplate.Formatter
