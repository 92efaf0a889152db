import LogTemplate.Text.Basic

namespace LogTemplate

abbrev Bytes := List UInt8

namespace Utf8

inductive Fault where
  /-- `length` bytes from `index` start no character. -/
  | invalid (length index : Nat)
  /-- The bytes end inside the character at `index`. -/
  | incomplete (index : Nat)
  deriving DecidableEq, Repr

def Fault.message : Fault → String
  | .invalid length index => s!"invalid utf-8 sequence of {length} bytes from index {index}"
  | .incomplete index => s!"incomplete utf-8 byte sequence from index {index}"

/-- The number of bytes after the first one of a character, with the payload of that byte and
the least and the greatest byte that may come second. -/
def lead? (b : Nat) : Option (Nat × Nat × Nat × Nat) :=
  if b < 0x80 then some (0, b, 0, 0)
  else if 0xC2 ≤ b ∧ b ≤ 0xDF then some (1, b - 0xC0, 0x80, 0xBF)
  else if b = 0xE0 then some (2, 0, 0xA0, 0xBF)
  else if b = 0xED then some (2, 0x0D, 0x80, 0x9F)
  else if 0xE1 ≤ b ∧ b ≤ 0xEF then some (2, b - 0xE0, 0x80, 0xBF)
  else if b = 0xF0 then some (3, 0, 0x90, 0xBF)
  else if 0xF1 ≤ b ∧ b ≤ 0xF3 then some (3, b - 0xF0, 0x80, 0xBF)
  else if b = 0xF4 then some (3, 4, 0x80, 0x8F)
  else none

/-- Where a reader stands between two bytes. -/
inductive State where
  /-- Between characters. -/
  | start
  /-- Inside a character: the bytes read of it, the bytes still owed, the payload so far, and the
  least and the greatest byte that may come next. -/
  | inside (read owed payload least greatest : Nat)
  deriving DecidableEq, Repr

/-- The characters of `bytes` from a state on; `index` counts the bytes before the character that
is being read. -/
def decodeFrom : State → Nat → Bytes → Except Fault Text
  | .start, _, [] => .ok []
  | .inside _ _ _ _ _, index, [] => .error (.incomplete index)
  | .start, index, b :: bytes =>
      match lead? b.toNat with
      | none => .error (.invalid 1 index)
      | some (0, payload, _, _) =>
          (decodeFrom .start (index + 1) bytes).map (Char.ofNat payload :: ·)
      | some (owed, payload, least, greatest) =>
          decodeFrom (.inside 1 owed payload least greatest) index bytes
  | .inside read owed payload least greatest, index, b :: bytes =>
      if least ≤ b.toNat ∧ b.toNat ≤ greatest then
        let payload := payload * 64 + b.toNat % 64
        if owed ≤ 1 then
          (decodeFrom .start (index + read + 1) bytes).map (Char.ofNat payload :: ·)
        else decodeFrom (.inside (read + 1) (owed - 1) payload 0x80 0xBF) index bytes
      else .error (.invalid read index)

/-- The text whose UTF-8 form the bytes are. -/
def decode (bytes : Bytes) : Except Fault Text :=
  decodeFrom .start 0 bytes

end Utf8

end LogTemplate
