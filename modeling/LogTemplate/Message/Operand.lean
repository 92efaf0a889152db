import LogTemplate.Delimiter
import LogTemplate.Text.Blank
import LogTemplate.Text.Letter

/-!
Reading a concatenation such as `"id:" + user.getId() + " done"` as a list of operands. The reader
is shallow: it knows three shapes of operand, takes a `+` for nothing but a separator, and stops
with an error once it has read as many operands as its budget allows and text remains.
-/

namespace LogTemplate

inductive Operand where
  /-- The text between the quotes of a string literal, escapes kept. -/
  | literal (text : Text)
  /-- A parenthesised group with its parentheses. -/
  | group (text : Text)
  /-- A variable or a simple chain of calls. -/
  | bare (text : Text)
  deriving DecidableEq, Repr

/-- Why an expression is not a list of operands. `rest` is the text that was not read. -/
inductive OperandError where
  | invalid (rest : Text)
  | unclosed (rest : Text)
  | unbalanced (rest : Text)
  /-- Text remains after `budget` operands. -/
  | exhausted (budget : Nat) (rest : Text)
  deriving DecidableEq, Repr

def OperandError.message : OperandError → String
  | .invalid rest => "invalid message syntax at: " ++ String.ofList rest
  | .unclosed rest => "string literal never closes: " ++ String.ofList rest
  | .unbalanced rest => "unbalanced parentheses: " ++ String.ofList rest
  | .exhausted budget rest =>
      s!"expression not consumed after {budget} operands, remaining: " ++ String.ofList rest

namespace Operand

/-- The call that a bare operand loses when it ends in it: a template converts its parameters to
text by itself. -/
def conversion : Text := ".toString()".toList

/-- A character of a bare operand: it ends at a `+` or at a blank. -/
def continuesBare (c : Char) : Bool :=
  c ≠ '+' && !isBlank c

/-- The operand at the front of a text, and what follows it. -/
def read : Text → Except OperandError (Operand × Text)
  | [] => .error (.invalid [])
  | c :: cs =>
      if c = '"' then
        match Delimiter.splitLiteral '"' '"' cs with
        | some (body, rest) => .ok (.literal body, rest)
        | none => .error (.unclosed (c :: cs))
      else if c = '(' then
        match Delimiter.splitGroup (c :: cs) with
        | some (text, rest) => .ok (.group text, rest)
        | none => .error (.unbalanced (c :: cs))
      else if startsName c then
        .ok (.bare (Text.dropEnding conversion ((c :: cs).takeWhile continuesBare)),
          (c :: cs).dropWhile continuesBare)
      else .error (.invalid (c :: cs))

/-- The text after a separator: blanks, at most one `+`, blanks. -/
def skipSeparator (text : Text) : Text :=
  match text.trimStart with
  | '+' :: rest => Text.trimStart rest
  | rest => rest

/-- The operands of a text of which `left` more may be read. -/
def readAll (budget : Nat) : Nat → Text → Except OperandError (List Operand)
  | 0, text => .error (.exhausted budget text)
  | left + 1, text => do
      let (operand, rest) ← read text
      let rest := skipSeparator rest
      if rest.isEmpty then
        return [operand]
      else
        return operand :: (← readAll budget left rest)

/-- The operands of an expression, from left to right, when there are at most `budget` of them. -/
def parse (budget : Nat) (expression : Text) : Except OperandError (List Operand) :=
  readAll budget budget expression.trim

end Operand

end LogTemplate
