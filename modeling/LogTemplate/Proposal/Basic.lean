import LogTemplate.Message.Template
import LogTemplate.Source.Position
import LogTemplate.Source.Statement

namespace LogTemplate

/-- The replacement of a span of text. -/
structure Proposal where
  span : Span
  replacement : Text
  statement : Statement
  template : Template
  deriving DecidableEq, Repr

/-- Why nothing is offered for a statement. None of these is an error. -/
inductive Skip where
  | emptyStatement
  /-- The statement is not a logging call. -/
  | notLoggingCall
  | alreadyTemplated
  | log4j
  /-- The library of the receiver is not known. -/
  | unresolved
  /-- A call of `log` without a level. -/
  | missingLevel
  | extraArguments
  deriving DecidableEq, Repr

def Skip.message : Skip → String
  | .emptyStatement => "no statement at trigger"
  | .notLoggingCall => "not a logging call"
  | .alreadyTemplated => "message already uses placeholders"
  | .log4j => "log4j logger"
  | .unresolved => "logger type not resolved"
  | .missingLevel => "log call has no level argument"
  | .extraArguments => "call passes arguments besides the message"

inductive Offer where
  | proposed (proposal : Proposal)
  | skipped (reason : Skip)
  deriving DecidableEq, Repr

/-- Why a line or a message could not be worked on. Line numbers count from one, and `line` from
zero. -/
inductive Refusal where
  /-- The line is not one of the `count` lines. -/
  | outOfRange (line count : Nat)
  | malformed (lineNumber : Nat) (cause : OperandError)
  /-- The message has more operands than the budget allows. -/
  | unbounded (lineNumber budget : Nat)
  deriving DecidableEq, Repr

namespace Refusal

def message : Refusal → String
  | .outOfRange line count => s!"trigger line {line} is outside a buffer of {count} lines"
  | .malformed lineNumber cause =>
      s!"malformed message expression in statement at line {lineNumber}: " ++ cause.message
  | .unbounded lineNumber budget =>
      s!"message expression at line {lineNumber} exceeds the operand budget of {budget}"

/-- The refusal of a statement whose message could not be read. -/
def ofOperandError (statement : Statement) : OperandError → Refusal
  | .exhausted budget _ => .unbounded (statement.first + 1) budget
  | cause => .malformed (statement.first + 1) cause

end Refusal

/-- What is offered in a whole source. -/
structure Report where
  proposals : List Proposal
  refusals : List Refusal
  deriving DecidableEq, Repr

end LogTemplate
