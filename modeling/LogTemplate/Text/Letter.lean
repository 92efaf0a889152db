import LogTemplate.Text.Basic

/-!
Letters of the names in a logging call. Case is ignored the way simple case folding does it, which
puts the long s (U+017F) beside `s` and the Kelvin sign (U+212A) beside `k`.
-/

namespace LogTemplate

def longS : Char := Char.ofNat 0x017F

def kelvinSign : Char := Char.ofNat 0x212A

/-- The simple case folding of a character, as far as its class meets the ASCII letters. -/
def foldCase (c : Char) : Char :=
  if c = longS then 's' else if c = kelvinSign then 'k' else c.toLower

/-- The capital of a letter that folds to an ASCII letter. -/
def toCapital (c : Char) : Char :=
  if c = longS then 'S' else c.toUpper

/-- A character that may start a name: an ASCII letter, an underscore or a dollar sign. -/
def startsName (c : Char) : Bool :=
  c.isAlpha || c == '_' || c == '$'

/-- A character that may continue a name of the ASCII range. -/
def continuesName (c : Char) : Bool :=
  startsName c || c.isDigit

/-- A character that may start a receiver, case ignored: also a letter that folds to an ASCII
letter. -/
def startsReceiver (c : Char) : Bool :=
  startsName (foldCase c)

/-- A character that may continue a receiver, case ignored. -/
def continuesReceiver (c : Char) : Bool :=
  continuesName (foldCase c)

def sameFolded (u v : Text) : Bool :=
  u.map foldCase == v.map foldCase

end LogTemplate
