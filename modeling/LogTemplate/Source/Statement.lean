import LogTemplate.Text.Blank

/-!
The statement around a line. Lines above belong to it as long as they hold no semicolon and no
brace; lines below belong to it until a semicolon has been read.
-/

namespace LogTemplate

/-- A statement: its lines without the blanks around them, put together, and the numbers of its
first and last line. -/
structure Statement where
  code : Text
  first : Nat
  last : Nat
  deriving DecidableEq, Repr

namespace Statement

/-- A line at which the statement above it is over. -/
def closes (line : Text) : Bool :=
  line.any fun c => c == ';' || c == '{' || c == '}'

/-- The lines right above a line that belong to its statement, trimmed, the nearest first. -/
def above (lines : List Text) (trigger : Nat) : List Text :=
  ((lines.take trigger).reverse.takeWhile fun line => !closes line).map Text.trim

/-- The first line of the statement, given the lines of it above the trigger, the nearest first,
and the number of the lines that precede the trigger: the topmost one that is not blank. -/
def firstLine (trigger count : Nat) (above : List Text) : Nat :=
  match above.reverse.findIdx? fun line => !line.isEmpty with
  | some index => count - above.length + index
  | none => trigger

/-- The code after taking in lines until it holds a semicolon or is still empty, and the number of
lines taken in. -/
def takeIn : Text → List Text → Text × Nat
  | code, [] => (code, 0)
  | code, line :: lines =>
      let code := code ++ line.trim
      if code.isEmpty || code.contains ';' then (code, 1)
      else
        let (code, taken) := takeIn code lines
        (code, taken + 1)

/-- The statement around the line `trigger`, which may lie past the last line. -/
def locate (lines : List Text) (trigger : Nat) : Statement :=
  let above := above lines trigger
  let first := firstLine trigger (min trigger lines.length) above
  let (code, taken) := takeIn above.reverse.flatten (lines.drop trigger)
  { code, first, last := max (trigger + taken - 1) first }

end Statement

end LogTemplate
