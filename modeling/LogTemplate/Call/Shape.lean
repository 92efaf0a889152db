import LogTemplate.Text.Blank
import LogTemplate.Text.DecimalDigit
import LogTemplate.Text.Letter

namespace LogTemplate

/-- The names of logging methods, in lower case. -/
def logLevels : List Text :=
  ["log", "debug", "error", "fatal", "info", "trace", "warn", "severe", "warning", "config",
    "fine", "finer", "finest"].map String.toList

/-- The name of a logging method, case ignored. -/
def isLogLevel (name : Text) : Bool :=
  logLevels.any (sameFolded name)

/-- A receiver: a name, case ignored. -/
def isReceiver : Text → Bool
  | [] => false
  | c :: cs => startsReceiver c && cs.all continuesReceiver

/-- Something other than a newline, then a semicolon, and no newline anywhere. -/
def isCallTail (text : Text) : Bool :=
  1 < text.length && text.getLast? == some ';' && !text.contains '\n'

/-- The text is a receiver, a dot, the name of a logging method, an opening parenthesis and the
tail of a call. Blanks around it do not count. -/
def isLoggingCall (statement : Text) : Bool :=
  match statement.trim.span (· ≠ '.') with
  | (receiver, '.' :: afterDot) =>
      match afterDot.span (· ≠ '(') with
      | (level, '(' :: tail) => isReceiver receiver && isLogLevel level && isCallTail tail
      | _ => false
  | _ => false

/-- A closing brace comes before the next newline. -/
def closesOnLine (text : Text) : Bool :=
  (text.takeWhile (· ≠ '\n')).contains '}'

/-- Some opening brace is followed at once by a decimal digit, and then, before any newline, by a
closing brace. -/
def hasPlaceholder : Text → Bool
  | [] => false
  | '{' :: c :: cs => (isDecimalDigit c && closesOnLine cs) || hasPlaceholder (c :: cs)
  | _ :: cs => hasPlaceholder cs

end LogTemplate
