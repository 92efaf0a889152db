import LogTemplate.Delimiter
import LogTemplate.Text.Blank
import LogTemplate.Text.Letter

namespace LogTemplate

/-- The parts of `receiver.level(arguments);`. -/
structure Call where
  receiver : Text
  level : Text
  /-- The text between the parentheses. -/
  arguments : Text
  deriving DecidableEq, Repr

namespace Call

/-- The call at the front of a statement. The first dot comes before the first parenthesis, and a
semicolon follows the closing one. -/
def split? (code : Text) : Option Call :=
  match code.span (· ≠ '.') with
  | (owner, '.' :: afterDot) =>
      if owner.contains '(' then none
      else
        match afterDot.span (· ≠ '(') with
        | (level, '(' :: inside) => do
            let (arguments, rest) ← Delimiter.cutAt ')' inside
            guard (rest.trimStart.head? = some ';')
            return { receiver := Text.trim owner, level, arguments }
        | _ => none
  | _ => none

/-- The method is `log`, which takes the level as its first argument. -/
def passesLevel (call : Call) : Bool :=
  call.level.map Char.toLower == "log".toList

/-- Why a call has no message to work on. -/
inductive Unfit where
  /-- The method is `log`, and there is one argument at most. -/
  | noLevel
  | moreArguments
  deriving DecidableEq, Repr

/-- The new call up to its message, and the message. A call of `log` keeps its level argument as it
is; a level method becomes a constant of `levelType`. -/
def headAndMessage (call : Call) (levelType : Text) : Except Unfit (Text × Text) := do
  let (head, message) ←
    if call.passesLevel then
      match Delimiter.cutAt ',' call.arguments with
      | some (level, message) =>
          .ok (call.receiver ++ '.' :: (call.level ++ '(' :: level), message)
      | none => .error .noLevel
    else
      .ok (call.receiver ++ ".log(".toList ++ levelType ++ '.' :: call.level.map toCapital,
        call.arguments)
  if (Delimiter.cutAt ',' message).isSome then .error .moreArguments else .ok (head, message)

end Call

end LogTemplate
