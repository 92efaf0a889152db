/-!
Text is a list of characters. Offsets and columns throughout the library count the bytes of its
UTF-8 form, so a cut at an offset exists exactly where a character starts or the text ends.
-/

namespace LogTemplate

abbrev Text := List Char

namespace Text

/-- The number of bytes of the UTF-8 form. -/
def byteSize : Text → Nat
  | [] => 0
  | c :: cs => c.utf8Size + byteSize cs

@[simp]
theorem byteSize_nil : byteSize [] = 0 := rfl

@[simp]
theorem byteSize_cons (c : Char) (cs : Text) :
    byteSize (c :: cs) = c.utf8Size + byteSize cs := rfl

@[simp]
theorem byteSize_append (u v : Text) : byteSize (u ++ v) = byteSize u + byteSize v := by
  induction u with
  | nil => simp
  | cons c u ih => simp [ih, Nat.add_assoc]

def toBytes (cs : Text) : List UInt8 :=
  cs.flatMap String.utf8EncodeChar

/-- The shortest initial part of at least `n` bytes, and what follows it. The whole text stands
in for a part that would be too long. -/
def splitFrom : Nat → Text → Text × Text
  | 0, cs => ([], cs)
  | _ + 1, [] => ([], [])
  | n + 1, c :: cs =>
      let (before, after) := splitFrom (n + 1 - c.utf8Size) cs
      (c :: before, after)

theorem splitFrom_append (n : Nat) (cs : Text) :
    (splitFrom n cs).1 ++ (splitFrom n cs).2 = cs := by
  induction cs generalizing n with
  | nil => cases n <;> rfl
  | cons c cs ih =>
      cases n with
      | zero => rfl
      | succ n => simp [splitFrom, ih]

/-- The parts before and after byte `n`, when a character starts there or the text ends there. -/
def splitAt? (n : Nat) (cs : Text) : Option (Text × Text) :=
  let parts := splitFrom n cs
  if parts.1.byteSize = n then some parts else none

/-- A character starts at byte `n`, or the text ends there. -/
def isBoundary (n : Nat) (cs : Text) : Bool :=
  (splitAt? n cs).isSome

/-- The bytes from `start` up to `stop`, when both are boundaries and stand in that order. -/
def slice? (start stop : Nat) (cs : Text) : Option Text := do
  guard (start ≤ stop)
  let (_, rest) ← splitAt? start cs
  let (part, _) ← splitAt? (stop - start) rest
  return part

/-- What follows the last `separator`, or all of the text when there is none. -/
def afterLast (separator : Char) (cs : Text) : Text :=
  (cs.reverse.takeWhile (· ≠ separator)).reverse

/-- The text without `ending`, if it ends so. -/
def dropEnding (ending cs : Text) : Text :=
  if ending.isSuffixOf cs then cs.take (cs.length - ending.length) else cs

def ofNat (n : Nat) : Text :=
  Nat.toDigits 10 n

end Text

end LogTemplate
