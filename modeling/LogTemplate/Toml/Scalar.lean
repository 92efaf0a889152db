import LogTemplate.Toml.Number
import LogTemplate.Toml.Value

/-!
Strings and unquoted values of TOML 1.1. Every reader takes the text from its own start and returns
what follows it, and fails with `none`.
-/

namespace LogTemplate.Toml

/-- A character that may stand unescaped in a comment or a string: a tab, or no control
character. -/
def isPlain (c : Char) : Bool :=
  c = '\t' || (0x20 ≤ c.toNat && c.toNat ≠ 0x7F)

/-- The character with a hexadecimal code point. -/
def escapedChar? (digits : Text) : Option Char := do
  let code := (← digits.mapM hexValue?).foldl (fun code digit => code * 16 + digit) 0
  guard code.isValidChar
  return Char.ofNat code

/-- The character that a single letter after a backslash stands for. -/
def escapedLetter? : Char → Option Char
  | 'b' => some (Char.ofNat 0x08)
  | 't' => some '\t'
  | 'n' => some '\n'
  | 'f' => some (Char.ofNat 0x0C)
  | 'r' => some '\r'
  | 'e' => some (Char.ofNat 0x1B)
  | '"' => some '"'
  | '\\' => some '\\'
  | _ => none

/-- The text of a reader with a character in front. -/
def prepend (c : Char) : Text × Text → Text × Text
  | (body, rest) => (c :: body, rest)

/-- The rest of a string in double quotes. -/
def basicString : Text → Option (Text × Text)
  | [] => none
  | '"' :: cs => some ([], cs)
  | '\\' :: 'x' :: a :: b :: cs => do
      return prepend (← escapedChar? [a, b]) (← basicString cs)
  | '\\' :: 'u' :: a :: b :: c :: d :: cs => do
      return prepend (← escapedChar? [a, b, c, d]) (← basicString cs)
  | '\\' :: 'U' :: a :: b :: c :: d :: e :: f :: g :: h :: cs => do
      return prepend (← escapedChar? [a, b, c, d, e, f, g, h]) (← basicString cs)
  | '\\' :: c :: cs => do return prepend (← escapedLetter? c) (← basicString cs)
  | c :: cs => if isPlain c && c ≠ '\\' then (basicString cs).map (prepend c) else none

/-- The rest of a string in single quotes. -/
def literalString : Text → Option (Text × Text)
  | [] => none
  | '\'' :: cs => some ([], cs)
  | c :: cs => if isPlain c then (literalString cs).map (prepend c) else none

/-- Where the reader of a text in tripled double quotes stands. -/
inductive Folding where
  /-- In the text. -/
  | off
  /-- Between a backslash and the newline that has to follow it. -/
  | pending
  /-- After a backslash and a newline, where blanks and newlines are dropped. -/
  | on
  deriving DecidableEq, Repr

/-- The rest of a text in tripled double quotes. Up to two quotes may stand right before the closing
three. -/
def basicText : Folding → Text → Option (Text × Text)
  | _, [] => none
  | .pending, '\n' :: cs => basicText .on cs
  | .pending, '\r' :: '\n' :: cs => basicText .on cs
  | .pending, c :: cs => if c = ' ' || c = '\t' then basicText .pending cs else none
  | .on, '\n' :: cs => basicText .on cs
  | .on, ' ' :: cs => basicText .on cs
  | .on, '\t' :: cs => basicText .on cs
  | .on, '\r' :: '\n' :: cs => basicText .on cs
  | _, '"' :: '"' :: '"' :: '"' :: '"' :: cs => some (['"', '"'], cs)
  | _, '"' :: '"' :: '"' :: '"' :: cs => some (['"'], cs)
  | _, '"' :: '"' :: '"' :: cs => some ([], cs)
  | _, '\n' :: cs => (basicText .off cs).map (prepend '\n')
  | _, '\r' :: '\n' :: cs => (basicText .off cs).map (prepend '\r' ∘ prepend '\n')
  | _, '\\' :: '\n' :: cs => basicText .on cs
  | _, '\\' :: '\r' :: '\n' :: cs => basicText .on cs
  | _, '\\' :: ' ' :: cs => basicText .pending cs
  | _, '\\' :: '\t' :: cs => basicText .pending cs
  | _, '\\' :: 'x' :: a :: b :: cs => do
      return prepend (← escapedChar? [a, b]) (← basicText .off cs)
  | _, '\\' :: 'u' :: a :: b :: c :: d :: cs => do
      return prepend (← escapedChar? [a, b, c, d]) (← basicText .off cs)
  | _, '\\' :: 'U' :: a :: b :: c :: d :: e :: f :: g :: h :: cs => do
      return prepend (← escapedChar? [a, b, c, d, e, f, g, h]) (← basicText .off cs)
  | _, '\\' :: c :: cs => do return prepend (← escapedLetter? c) (← basicText .off cs)
  | _, c :: cs => if isPlain c && c ≠ '\\' then (basicText .off cs).map (prepend c) else none

/-- The rest of a text in tripled single quotes. -/
def literalText : Text → Option (Text × Text)
  | [] => none
  | '\'' :: '\'' :: '\'' :: '\'' :: '\'' :: cs => some (['\'', '\''], cs)
  | '\'' :: '\'' :: '\'' :: '\'' :: cs => some (['\''], cs)
  | '\'' :: '\'' :: '\'' :: cs => some ([], cs)
  | '\n' :: cs => (literalText cs).map (prepend '\n')
  | '\r' :: '\n' :: cs => (literalText cs).map (prepend '\r' ∘ prepend '\n')
  | c :: cs => if isPlain c then (literalText cs).map (prepend c) else none

/-- The text without a newline at its front. -/
def skipNewline : Text → Text
  | '\n' :: cs => cs
  | '\r' :: '\n' :: cs => cs
  | cs => cs

/-- A number of exactly `width` digits at the front of a text. -/
def fixedDigits? (width : Nat) (text : Text) : Option (Nat × Text) :=
  let digits := text.take width
  if digits.length = width ∧ digits.all Char.isDigit then
    some (digitsValue 10 digits, text.drop width)
  else none

/-- The number of days of a month. -/
def daysIn (year month : Nat) : Nat :=
  if month = 2 then
    if year % 4 = 0 ∧ (year % 100 ≠ 0 ∨ year % 400 = 0) then 29 else 28
  else if month ∈ [4, 6, 9, 11] then 30
  else 31

/-- What follows a date at the front of a text. -/
def skipDate? (text : Text) : Option Text := do
  let (year, rest) ← fixedDigits? 4 text
  let '-' :: rest := rest | none
  let (month, rest) ← fixedDigits? 2 rest
  let '-' :: rest := rest | none
  let (day, rest) ← fixedDigits? 2 rest
  guard (1 ≤ month ∧ month ≤ 12 ∧ 1 ≤ day ∧ day ≤ daysIn year month)
  return rest

/-- What follows hours and minutes at the front of a text. -/
def skipClock? (text : Text) : Option Text := do
  let (hour, rest) ← fixedDigits? 2 text
  let ':' :: rest := rest | none
  let (minute, rest) ← fixedDigits? 2 rest
  guard (hour ≤ 23 ∧ minute ≤ 59)
  return rest

/-- What follows a time at the front of a text. Seconds and their fraction may be missing. -/
def skipTime? (text : Text) : Option Text := do
  let rest ← skipClock? text
  match rest with
  | ':' :: rest =>
      let (second, rest) ← fixedDigits? 2 rest
      guard (second ≤ 60)
      match rest with
      | '.' :: c :: rest => if c.isDigit then some (rest.dropWhile Char.isDigit) else none
      | _ => some rest
  | _ => some rest

/-- A zone: UTC, or the difference to it. -/
def isZone : Text → Bool
  | ['Z'] | ['z'] => true
  | '+' :: rest | '-' :: rest => skipClock? rest == some []
  | _ => false

/-- A date, a time, or both with or without a zone. -/
def isDatetime (text : Text) : Bool :=
  match skipDate? text with
  | some [] => true
  | some (c :: rest) =>
      (c = 'T' || c = 't' || c = ' ') &&
        (match skipTime? rest with
        | some zone => zone.isEmpty || isZone zone
        | none => false)
  | none => skipTime? text == some []

/-- A character of a value without quotes. -/
def isUnquoted (c : Char) : Bool :=
  c.isAlphanum || c = '+' || c = '-' || c = '_' || c = '.' || c = ':'

/-- The unquoted word at the front of a text. A date takes the time after a blank with it. -/
def splitWord (text : Text) : Text × Text :=
  let (word, rest) := text.span isUnquoted
  match rest with
  | ' ' :: c :: more =>
      if skipDate? word = some [] ∧ c.isDigit then
        let (time, rest) := (c :: more).span isUnquoted
        (word ++ ' ' :: time, rest)
      else (word, rest)
  | _ => (word, rest)

def ofWord? (word : Text) : Option Value :=
  if word = "true".toList then some (.boolean true)
  else if word = "false".toList then some (.boolean false)
  else
    match integer? word with
    | some value => some (.integer value)
    | none =>
        if isFloat word then some (.float word)
        else if isDatetime word then some (.datetime word)
        else none

/-- The string or unquoted value at the front of a text. -/
def scalar? : Text → Option (Value × Text)
  | '"' :: '"' :: '"' :: cs => do
      let (text, rest) ← basicText .off (skipNewline cs)
      return (.string text, rest)
  | '"' :: cs => do
      let (text, rest) ← basicString cs
      return (.string text, rest)
  | '\'' :: '\'' :: '\'' :: cs => do
      let (text, rest) ← literalText (skipNewline cs)
      return (.string text, rest)
  | '\'' :: cs => do
      let (text, rest) ← literalString cs
      return (.string text, rest)
  | cs => do
      let (word, rest) := splitWord cs
      return (← ofWord? word, rest)

end LogTemplate.Toml
