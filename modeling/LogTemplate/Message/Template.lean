import LogTemplate.Message.Operand

/-!
Positional templates. The literals of a concatenation are copied into the template as they stand,
and every other operand becomes a parameter with a numbered placeholder.
-/

namespace LogTemplate

/-- A template and the parameters that fill it. -/
structure Template where
  /-- The quoted text with its placeholders. -/
  text : Text
  /-- The parameter expressions, in the order of their placeholders. -/
  params : List Text
  deriving DecidableEq, Repr

/-- The expression that an operand passes as a parameter, if it is not a literal. -/
def Operand.param? : Operand → Option Text
  | .literal _ => none
  | .group text => some text
  | .bare text => some text

namespace Template

def placeholder (n : Nat) : Text :=
  '{' :: (Text.ofNat n ++ ['}'])

/-- The text of the operands, with placeholders numbered from `n`. -/
def bodyFrom : Nat → List Operand → Text
  | _, [] => []
  | n, .literal text :: operands => text ++ bodyFrom n operands
  | n, .group _ :: operands => placeholder n ++ bodyFrom (n + 1) operands
  | n, .bare _ :: operands => placeholder n ++ bodyFrom (n + 1) operands

/-- The template of a list of operands. -/
def ofOperands (operands : List Operand) : Template where
  text := '"' :: (bodyFrom 0 operands ++ ['"'])
  params := operands.filterMap Operand.param?

/-- The template of a concatenation of at most `budget` operands. -/
def ofExpression (budget : Nat) (expression : Text) : Except OperandError Template :=
  (Operand.parse budget expression).map ofOperands

/-- The parameters as the arguments of a call: one stands alone, and any other number of them is
put into an array. -/
def argumentList (template : Template) : Text :=
  match template.params with
  | [single] => single
  | params => "new Object[] \x7b".toList ++ (", ".toList.intercalate params ++ ['}'])

end Template

end LogTemplate
