import LogTemplate.Diff.Script
import LogTemplate.Text.Basic

namespace LogTemplate.Diff

/-- The lines with a character in front of the first one. -/
def pushFront (c : Char) : List Text → List Text
  | [] => [[c]]
  | line :: lines => (c :: line) :: lines

/-- The lines of a text, with their ends. -/
def lines : Text → List Text
  | [] => []
  | '\n' :: cs => ['\n'] :: lines cs
  | '\r' :: '\n' :: cs => ['\r', '\n'] :: lines cs
  | '\r' :: cs => ['\r'] :: lines cs
  | c :: cs => pushFront c (lines cs)

/-- A line with a newline added where it has no end. -/
def closed (line : Text) : Text :=
  match line.getLast? with
  | some '\n' | some '\r' => line
  | _ => line ++ ['\n']

end LogTemplate.Diff
