import LogTemplate.Digest
import LogTemplate.Path
import LogTemplate.Proposal.Basic
import LogTemplate.Source.Buffer
import LogTemplate.Workspace.Fault

/-!
Edits: replacements pinned to the bytes of a file. An edit remembers what the bytes held when it was
made, so that a file that has changed since is left alone.
-/

namespace LogTemplate

/-- What a piece of text must be for an edit to replace it. -/
inductive Expected where
  | exact (text : Text)
  | digest (value : UInt64)
  deriving DecidableEq, Repr

namespace Expected

/-- The longest text, in bytes, that is remembered itself. -/
def exactLimit : Nat := 1024

/-- How a text is remembered: by itself, or by its digest when it is long. -/
def ofText (text : Text) : Expected :=
  if text.byteSize ≤ exactLimit then .exact text else .digest (Digest.ofBytes text.toBytes)

def admits : Expected → Text → Bool
  | .exact expected, text => text == expected
  | .digest value, text => Digest.ofBytes text.toBytes == value

end Expected

/-- The replacement of the bytes from `start` up to `stop` of a file. -/
structure Edit where
  file : Path
  start : Nat
  stop : Nat
  newText : Text
  expected : Expected
  deriving DecidableEq, Repr

/-- Why an edit cannot be made or applied. -/
inductive EditError where
  /-- The bytes hold neither the text that is expected nor the new one. -/
  | mismatch (file : Path) (start stop : Nat) (found : Text)
  /-- The bytes do not exist in a file of that size, or cut a character. -/
  | badRange (start stop size : Nat)
  | overlapping (file : Path) (start stop : Nat)
  /-- A proposal names a position that the file does not have. -/
  | noPosition (file : Path) (position : Position)
  /-- The offset of a position does not fit into a word. The program ends there. -/
  | overflow
  | unreadable (fault : FileFault)
  | notText (fault : Utf8.Fault)
  deriving DecidableEq, Repr

def EditError.message : EditError → String
  | .mismatch file start _ _ => s!"Before-text verification failed at {file.display}:{start}"
  | .badRange start stop size => s!"Invalid byte range: [{start}, {stop}) in file of length {size}"
  | .overlapping file start stop =>
      s!"Overlapping edits in {file.display} at bytes {start}..{stop}"
  | .noPosition file position =>
      s!"Position {position.line}:{position.column} does not exist in {file.display}"
  | .overflow => "attempt to add with overflow"
  | .unreadable fault => "File I/O error: " ++ fault.message
  | .notText fault => "UTF-8 validation error: " ++ fault.message

inductive EditResult where
  /-- The text was replaced by one of `size` bytes. -/
  | applied (file : Path) (size : Nat)
  /-- The bytes held the new text already. -/
  | alreadyApplied (file : Path)
  deriving DecidableEq, Repr

namespace Edit

/-- The edit that replaces the text `before`. -/
def replacing (file : Path) (start stop : Nat) (newText before : Text) : Edit :=
  { file, start, stop, newText, expected := .ofText before }

/-- The offset of a position that the file has to have. -/
def offsetIn (file : Path) (buffer : Buffer) (position : Position) : Except EditError Nat :=
  match buffer.offset? position with
  | .error .overflow => .error .overflow
  | .ok none => .error (.noPosition file position)
  | .ok (some offset) => .ok offset

/-- The replacement of a span of a buffer, as an edit of the file that the buffer was read from. -/
def pin (file : Path) (buffer : Buffer) (span : Span) (replacement : Text) :
    Except EditError Edit := do
  let start ← offsetIn file buffer span.start
  let stop ← offsetIn file buffer span.stop
  match buffer.text.slice? start stop with
  | some before => return replacing file start stop replacement before
  | none => .error (.badRange start stop buffer.text.byteSize)

/-- A proposal for a buffer, as an edit of the file that the buffer was read from. -/
def ofProposal (file : Path) (buffer : Buffer) (proposal : Proposal) : Except EditError Edit :=
  pin file buffer proposal.span proposal.replacement

/-- The text that the edit would replace, when it may. -/
def current (edit : Edit) (content : Text) : Except EditError Text :=
  match content.slice? edit.start edit.stop with
  | none => .error (.badRange edit.start edit.stop content.byteSize)
  | some found =>
      if found = edit.newText ∨ edit.expected.admits found then .ok found
      else .error (.mismatch edit.file edit.start edit.stop found)

/-- What becomes of the edit when it is applied to `content`. -/
def result (edit : Edit) (content : Text) : EditResult :=
  if content.slice? edit.start edit.stop = some edit.newText then .alreadyApplied edit.file
  else .applied edit.file edit.newText.byteSize

/-- The text with the bytes of the edit replaced. -/
def splice (content : Text) (edit : Edit) : Text :=
  let (before, rest) := content.splitFrom edit.start
  let (_, after) := Text.splitFrom (edit.stop - edit.start) rest
  before ++ edit.newText ++ after

end Edit

end LogTemplate
