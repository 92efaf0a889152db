import LogTemplate.Source.Position
import LogTemplate.Text.Basic

/-!
A text read as lines. Every line keeps the mark that ended it, so the lines make up the text again
byte for byte, and positions can be taken back to offsets.
-/

namespace LogTemplate

/-- What stands after the content of a line. -/
inductive LineEnd where
  | newline
  | returnNewline
  /-- Nothing: the text ends here. -/
  | endOfText
  deriving DecidableEq, Repr

def LineEnd.text : LineEnd → Text
  | .newline => ['\n']
  | .returnNewline => ['\r', '\n']
  | .endOfText => []

structure Line where
  content : Text
  ending : LineEnd
  deriving DecidableEq, Repr

namespace Line

/-- The characters of a line with those of its end. -/
def text (line : Line) : Text :=
  line.content ++ line.ending.text

/-- The line with one more character in front. -/
def push (c : Char) (line : Line) : Line :=
  { line with content := c :: line.content }

/-- The lines of a text. A newline ends a line, and a carriage return right before it belongs to
the end. What follows the last newline is a line too, even if it is empty. -/
def split : Text → List Line
  | [] => [⟨[], .endOfText⟩]
  | '\n' :: cs => ⟨[], .newline⟩ :: split cs
  | '\r' :: '\n' :: cs => ⟨[], .returnNewline⟩ :: split cs
  | c :: cs => (split cs).modifyHead (push c)

end Line

structure Buffer where
  lines : List Line
  deriving DecidableEq, Repr

/-- Offsets are words of 64 bits. -/
def wordSize : Nat := UInt64.size

/-- The sum that makes up an offset does not fit into a word. -/
inductive Overflow where
  | overflow
  deriving DecidableEq, Repr

namespace Buffer

def ofText (text : Text) : Buffer where
  lines := Line.split text

def text (buffer : Buffer) : Text :=
  buffer.lines.flatMap Line.text

def contents (buffer : Buffer) : List Text :=
  buffer.lines.map Line.content

def lineCount (buffer : Buffer) : Nat :=
  buffer.lines.length

/-- The content of a line, empty past the last one. -/
def lineAt (buffer : Buffer) (index : Nat) : Text :=
  (buffer.lines[index]?.map Line.content).getD []

/-- The offset at which a line starts. -/
def lineStart (buffer : Buffer) (index : Nat) : Nat :=
  Text.byteSize ((buffer.lines.take index).flatMap Line.text)

/-- The offset of a position, when its line exists, its offset does not pass the content of that
line, and a character starts or the text ends there. The sum of the line's start and the column is
taken before it is looked at, and it may overflow. -/
def offset? (buffer : Buffer) (position : Position) : Except Overflow (Option Nat) :=
  match buffer.lines[position.line]? with
  | none => .ok none
  | some line =>
      let start := buffer.lineStart position.line
      let offset := start + position.column
      if wordSize ≤ offset then .error .overflow
      else if offset ≤ start + line.content.byteSize ∧ buffer.text.isBoundary offset then
        .ok (some offset)
      else .ok none

theorem offset?_eq_ok_some_iff {buffer : Buffer} {position : Position} {offset : Nat} :
    buffer.offset? position = .ok (some offset) ↔
      ∃ line, buffer.lines[position.line]? = some line ∧
        offset = buffer.lineStart position.line + position.column ∧ offset < wordSize ∧
        offset ≤ buffer.lineStart position.line + line.content.byteSize ∧
        buffer.text.isBoundary offset = true := by
  rw [offset?]
  cases buffer.lines[position.line]? with
  | none => simp
  | some line =>
      simp only [Option.some.injEq, exists_eq_left']
      split
      · rename_i hword
        simp only [reduceCtorEq, false_iff]
        omega
      · rename_i hword
        split
        · rename_i hwithin
          simp only [Except.ok.injEq, Option.some.injEq]
          constructor
          · rintro rfl
            exact ⟨rfl, Nat.lt_of_not_le hword, hwithin⟩
          · rintro ⟨rfl, -⟩
            rfl
        · rename_i hbeyond
          simp only [Except.ok.injEq, reduceCtorEq, false_iff]
          rintro ⟨rfl, -, hwithin⟩
          exact hbeyond hwithin

theorem offset?_eq_error_iff {buffer : Buffer} {position : Position} :
    buffer.offset? position = .error .overflow ↔
      position.line < buffer.lineCount ∧
        wordSize ≤ buffer.lineStart position.line + position.column := by
  rw [offset?, lineCount]
  cases hline : buffer.lines[position.line]? with
  | none =>
      have hle := List.getElem?_eq_none_iff.mp hline
      simp only [reduceCtorEq, false_iff]
      omega
  | some line =>
      have hlt := (List.getElem?_eq_some_iff.mp hline).1
      simp only [hlt, true_and]
      split
      · rename_i hword
        simp [hword]
      · rename_i hword
        split
        · simp [hword]
        · simp [hword]

/-- The text of a span, when both of its ends have an offset and stand in order. -/
def slice? (buffer : Buffer) (span : Span) : Except Overflow (Option Text) := do
  match ← buffer.offset? span.start with
  | none => return none
  | some start =>
      match ← buffer.offset? span.stop with
      | none => return none
      | some stop => return buffer.text.slice? start stop

theorem slice?_eq_ok_some_iff {buffer : Buffer} {span : Span} {part : Text} :
    buffer.slice? span = .ok (some part) ↔
      ∃ start stop, buffer.offset? span.start = .ok (some start) ∧
        buffer.offset? span.stop = .ok (some stop) ∧
        buffer.text.slice? start stop = some part := by
  rw [slice?]
  cases buffer.offset? span.start with
  | error => simp [bind, Except.bind]
  | ok start? =>
      cases start? with
      | none => simp [bind, Except.bind, pure, Except.pure]
      | some start =>
          cases buffer.offset? span.stop with
          | error => simp [bind, Except.bind]
          | ok stop? => cases stop? <;> simp [bind, Except.bind, pure, Except.pure]

end Buffer

end LogTemplate
