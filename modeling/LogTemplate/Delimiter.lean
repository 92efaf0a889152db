import LogTemplate.Text.Basic

/-!
Cutting Java text at its delimiters. A literal ends at its own quote unless a backslash stands
right before that quote; nothing more is made of escapes, so a doubled backslash still keeps the
quote inside. Groups are counted by their parentheses.

The cuts return the text on both sides. The functions that answer an offset are read off them.
-/

namespace LogTemplate.Delimiter

/-- The rest of a literal up to its closing quote, and what follows that quote. The first argument
after the quote is the character read last. -/
def splitLiteral (quote : Char) : Char → Text → Option (Text × Text)
  | _, [] => none
  | previous, c :: cs =>
      if c = quote ∧ previous ≠ '\\' then some ([], cs)
      else (splitLiteral quote c cs).map fun (body, rest) => (c :: body, rest)

theorem append_of_splitLiteral {quote previous : Char} {cs body rest : Text}
    (h : splitLiteral quote previous cs = some (body, rest)) : body ++ quote :: rest = cs := by
  induction cs generalizing previous body with
  | nil => simp [splitLiteral] at h
  | cons c cs ih =>
      simp only [splitLiteral] at h
      split at h
      next hc =>
        obtain ⟨rfl, rfl⟩ := Prod.mk.inj (Option.some.inj h)
        simp [hc.1]
      next =>
        obtain ⟨⟨tail, rest'⟩, htail, heq⟩ := Option.map_eq_some_iff.mp h
        obtain ⟨rfl, rfl⟩ := Prod.mk.inj heq
        simp [ih htail]

theorem length_lt_of_splitLiteral {quote previous : Char} {cs body rest : Text}
    (h : splitLiteral quote previous cs = some (body, rest)) : rest.length < cs.length := by
  rw [← append_of_splitLiteral h]
  simp
  omega

/-- The depth of nesting after a character. A closing parenthesis without a partner leaves it at
zero. -/
def depthAfter (depth : Nat) (c : Char) : Nat :=
  if c = '(' then depth + 1 else if c = ')' then depth - 1 else depth

/-- The text up to and with the first closing parenthesis that brings the depth to zero, and what
follows it. Parentheses inside literals are counted too. -/
def splitClosing : Nat → Text → Option (Text × Text)
  | _, [] => none
  | depth, c :: cs =>
      let depth := depthAfter depth c
      if c = ')' ∧ depth = 0 then some ([c], cs)
      else (splitClosing depth cs).map fun (group, rest) => (c :: group, rest)

/-- The parenthesised group at the front of a text, and what follows it. -/
def splitGroup : Text → Option (Text × Text)
  | '(' :: cs => splitClosing 0 ('(' :: cs)
  | _ => none

/-- The text before the first character that satisfies `hit` outside literals and outside the
groups opened so far, and the text from that character on. A literal that never closes hides all
that follows it. -/
def splitTopLevel (hit : Char → Bool) : Nat → Text → Option (Text × Text)
  | _, [] => none
  | depth, c :: cs =>
      if hit c ∧ depth = 0 then some ([], c :: cs)
      else if c = '"' ∨ c = '\'' then
        match h : splitLiteral c c cs with
        | none => none
        | some (body, rest) =>
            have : rest.length < cs.length := length_lt_of_splitLiteral h
            (splitTopLevel hit depth rest).map fun (before, found) =>
              (c :: (body ++ c :: before), found)
      else
        (splitTopLevel hit (depthAfter depth c) cs).map fun (before, found) => (c :: before, found)
termination_by _ cs => cs.length
decreasing_by
  · exact Nat.lt_succ_of_lt this
  · exact Nat.lt_succ_self _

/-- The parts on both sides of the first `target` at top level. -/
def cutAt (target : Char) (text : Text) : Option (Text × Text) :=
  (splitTopLevel (· = target) 0 text).map fun (before, found) => (before, found.tail)

/-- The offset of the quote that closes a string literal whose text starts at byte `start`. -/
def endOfQuoted (text : Text) (start : Nat) : Option Nat :=
  let (before, after) := text.splitFrom start
  (splitLiteral '"' (before.getLast?.getD '"') after).map fun (body, _) =>
    before.byteSize + body.byteSize

/-- The offset of the parenthesis that closes the group at the front of a text. -/
def endOfGroup (text : Text) : Option Nat :=
  (splitGroup text).map fun (group, _) => group.byteSize - 1

/-- The offset of the first byte `target` at top level. -/
def findTopLevel (text : Text) (target : UInt8) : Option Nat := do
  let (before, found) ← splitTopLevel (fun c => (String.utf8EncodeChar c).contains target) 0 text
  let c ← found.head?
  let within ← (String.utf8EncodeChar c).idxOf? target
  return before.byteSize + within

end LogTemplate.Delimiter
