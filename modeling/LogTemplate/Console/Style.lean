import LogTemplate.Text.Basic

namespace LogTemplate.Console

inductive Style where
  | bold
  | dim
  | red
  | green
  | yellow
  | cyan
  deriving DecidableEq, Repr

/-- The number of a style in a control sequence. -/
def Style.code : Style → Nat
  | .bold => 1
  | .dim => 2
  | .red => 31
  | .green => 32
  | .yellow => 33
  | .cyan => 36

/-- The control sequence that starts a style. -/
def Style.start (style : Style) : Text :=
  "\x1b[".toList ++ (Text.ofNat style.code ++ ['m'])

/-- The control sequence that ends all styles. -/
def reset : Text := "\x1b[0m".toList

/-- The text with `start` put after every control sequence that ends all styles, so that the style
goes on behind it. -/
def resume (start : Text) : Text → Text
  | [] => []
  | '\x1b' :: '[' :: '0' :: 'm' :: cs => reset ++ start ++ resume start cs
  | c :: cs => c :: resume start cs

/-- The text in a style, or as it is where colours are off. -/
def paint (colored : Bool) (style : Style) (text : String) : String :=
  if colored then String.ofList (style.start ++ resume style.start text.toList ++ reset) else text

end LogTemplate.Console
