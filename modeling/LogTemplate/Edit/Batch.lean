import LogTemplate.Edit.Basic

/-!
Applying many edits to one text. All of them are checked before anything is replaced; then the text
is replaced from the back, so that the bytes of the edits still to come stay where they are.
-/

namespace LogTemplate.Edit

/-- The edits from the back of the text to its front. Edits that start at the same byte keep their
order. -/
def backward (edits : List Edit) : List Edit :=
  edits.mergeSort fun a b => b.start ≤ a.start

/-- The first edit, from the back, that reaches into the one behind it. -/
def overlap? : List Edit → Option EditError
  | later :: earlier :: rest =>
      if later.start < earlier.stop then
        some (.overlapping later.file later.start earlier.stop)
      else overlap? (earlier :: rest)
  | _ => none

/-- The edits, given from the back, may all be applied. -/
def checkAll (content : Text) (edits : List Edit) : Except EditError Unit := do
  edits.forM fun edit => discard (edit.current content)
  match overlap? edits with
  | some error => .error error
  | none => .ok ()

/-- The text after all edits, and what became of each, in the order of the list. -/
def applyAll (content : Text) (edits : List Edit) : Except EditError (Text × List EditResult) := do
  checkAll content (backward edits)
  return ((backward edits).foldl splice content, edits.map (·.result content))

end LogTemplate.Edit
