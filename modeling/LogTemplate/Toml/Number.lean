import LogTemplate.Text.Basic

namespace LogTemplate.Toml

def hexValue? (c : Char) : Option Nat :=
  if c.isDigit then some (c.toNat - '0'.toNat)
  else if 'a' ≤ c ∧ c ≤ 'f' then some (c.toNat - 'a'.toNat + 10)
  else if 'A' ≤ c ∧ c ≤ 'F' then some (c.toNat - 'A'.toNat + 10)
  else none

/-- Digits with single underscores between them, which are left out. -/
def digits? (isDigit : Char → Bool) : Text → Option Text
  | [] => none
  | [c] => if isDigit c then some [c] else none
  | c :: '_' :: d :: cs =>
      if isDigit c then (digits? isDigit (d :: cs)).map (c :: ·) else none
  | c :: cs => if isDigit c then (digits? isDigit cs).map (c :: ·) else none

/-- The value of digits to a base. -/
def digitsValue (base : Nat) (digits : Text) : Nat :=
  digits.foldl (fun value digit => value * base + (hexValue? digit).getD 0) 0

/-- Digits to a base, as a number. -/
def natural? (base : Nat) (text : Text) : Option Nat :=
  (digits? (fun c => (hexValue? c).any (· < base)) text).map (digitsValue base)

/-- Decimal digits without leading zeros. -/
def wholeDigits? (text : Text) : Option Text := do
  guard (text.head? ≠ some '0' || text.length = 1)
  digits? Char.isDigit text

/-- The sign in front of a number, and the number. -/
def splitSign : Text → Bool × Text
  | '-' :: cs => (true, cs)
  | '+' :: cs => (false, cs)
  | cs => (false, cs)

def signed (negative : Bool) (n : Nat) : Int :=
  if negative then -Int.ofNat n else Int.ofNat n

/-- An integer of 64 bits. Only a decimal one has a sign. -/
def integer? (text : Text) : Option Int := do
  let value : Int ←
    match text with
    | '0' :: 'x' :: cs => (natural? 16 cs).map Int.ofNat
    | '0' :: 'o' :: cs => (natural? 8 cs).map Int.ofNat
    | '0' :: 'b' :: cs => (natural? 2 cs).map Int.ofNat
    | _ =>
        let (negative, magnitude) := splitSign text
        (wholeDigits? magnitude).map fun digits => signed negative (digitsValue 10 digits)
  guard (-0x8000000000000000 ≤ value ∧ value < 0x8000000000000000)
  return value

/-- A number without its sign: decimal digits, and the power of ten to multiply them by. -/
structure Magnitude where
  digits : Text
  exponent : Int
  deriving DecidableEq, Repr

def exponent? (text : Text) : Option Int :=
  let (negative, digits) := splitSign text
  (natural? 10 digits).map (signed negative)

namespace Magnitude

/-- A number with a fraction, an exponent or both. -/
def parse? (text : Text) : Option Magnitude := do
  let (mantissa, power) := text.span fun c => c ≠ 'e' && c ≠ 'E'
  let (whole, fraction) := mantissa.span (· ≠ '.')
  guard (!(fraction.isEmpty && power.isEmpty))
  let whole ← wholeDigits? whole
  let fraction ← if fraction.isEmpty then some [] else digits? Char.isDigit fraction.tail
  let exponent ← if power.isEmpty then some 0 else exponent? power.tail
  return { digits := whole ++ fraction, exponent := exponent - Int.ofNat fraction.length }

/-- The least number that rounds past all doubles. It lies half-way between the largest double and
the power of two that follows. -/
def doubleLimit : Nat :=
  1 <<< 1024 - 1 <<< 970

/-- The number is less than a natural one. -/
def isBelow (magnitude : Magnitude) (limit : Nat) : Bool :=
  let value := digitsValue 10 magnitude.digits
  match magnitude.exponent with
  | .ofNat n => value * Nat.pow 10 n < limit
  | .negSucc n => value < limit * Nat.pow 10 (n + 1)

/-- The number rounds to a double. A number of up to 308 digits before the point does, and one of
more than 309 does not. -/
def isFinite (magnitude : Magnitude) : Bool :=
  let digits := magnitude.digits.dropWhile (· = '0')
  let width := Int.ofNat digits.length + magnitude.exponent
  if digits.isEmpty || width < 309 then true
  else if 309 < width then false
  else magnitude.isBelow doubleLimit

end Magnitude

/-- A number with a fraction, an exponent or both that rounds to a double, or one of the special
numbers. -/
def isFloat (text : Text) : Bool :=
  let magnitude := (splitSign text).2
  magnitude = "inf".toList || magnitude = "nan".toList ||
    (Magnitude.parse? magnitude).any Magnitude.isFinite

end LogTemplate.Toml
