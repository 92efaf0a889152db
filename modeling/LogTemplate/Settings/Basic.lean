import LogTemplate.Logger
import LogTemplate.Text.Blank

namespace LogTemplate

structure Settings where
  /-- The most operands that are read from one message. -/
  operandBudget : Nat
  /-- The types of the loggers that are told apart. -/
  loggers : LoggerTypes
  /-- The type that holds the level constants. -/
  levelType : Text
  /-- The extensions of the files that are taken from a folder. -/
  extensions : List Text
  deriving DecidableEq, Repr

namespace Settings

def default : Settings where
  operandBudget := 20
  loggers :=
    { standard := "java.util.logging.Logger".toList
      log4j := "org.apache.logging.log4j.Logger".toList }
  levelType := "Level".toList
  extensions := ["java".toList]

instance : Inhabited Settings := ⟨default⟩

/-- The settings that issues are raised about. -/
inductive Field where
  | operandBudget
  | standardLogger
  | log4jLogger
  | levelType
  | extensions
  deriving DecidableEq, Repr

/-- The section and key of a setting. -/
def Field.key : Field → String
  | .operandBudget => "parser.iteration_budget"
  | .standardLogger => "resolver.standard_logger"
  | .log4jLogger => "resolver.log4j_logger"
  | .levelType => "rewrite.level_type"
  | .extensions => "rewrite.extensions"

inductive Issue where
  /-- The budget allows no operand at all. -/
  | noBudget
  /-- A name is blank, or no extension is given. -/
  | empty (field : Field)
  /-- A name has a blank in it. -/
  | blankInside (field : Field)
  | sameLoggers
  /-- An extension is blank or starts with a dot. -/
  | badExtension (extension : Text)
  deriving DecidableEq, Repr

def Issue.message : Issue → String
  | .noBudget => s!"'{Field.operandBudget.key}' is out of range: must be at least 1"
  | .empty field => s!"'{field.key}' must not be empty"
  | .blankInside field =>
      s!"invalid formatter configuration: {field.key} must not contain whitespace"
  | .sameLoggers =>
      s!"invalid formatter configuration: {Field.standardLogger.key} and " ++
        s!"{Field.log4jLogger.key} must differ"
  | .badExtension extension =>
      "invalid formatter configuration: extension '" ++ String.ofList extension ++
        "' must be a bare name such as 'java'"

/-- The issue with a name, if there is one. -/
def nameIssue? (field : Field) (name : Text) : Option Issue :=
  if name.trim.isEmpty then some (.empty field)
  else if name.any isBlank then some (.blankInside field)
  else none

/-- The issue with an extension, if there is one. -/
def extensionIssue? (extension : Text) : Option Issue :=
  if extension.trim.isEmpty || extension.head? == some '.' then some (.badExtension extension)
  else none

/-- All that is wrong with settings: the budget, the names, the pair of loggers, the extensions. -/
def issues (settings : Settings) : List Issue :=
  let { standard, log4j } := settings.loggers
  (if settings.operandBudget = 0 then [.noBudget] else []) ++
    (nameIssue? .standardLogger standard).toList ++
    (nameIssue? .log4jLogger log4j).toList ++
    (nameIssue? .levelType settings.levelType).toList ++
    (if standard ≠ [] ∧ standard = log4j then [.sameLoggers] else []) ++
    (if settings.extensions.isEmpty then [.empty .extensions] else []) ++
    settings.extensions.filterMap extensionIssue?

end Settings

end LogTemplate
