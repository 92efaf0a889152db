import LogTemplate.Edit.Batch
import LogTemplate.Proposal.Formatter

namespace LogTemplate

/-- The edits of a file's text, one for each proposal, and the refusals. -/
structure Plan where
  edits : List (Except EditError Edit)
  refusals : List Refusal

namespace Plan

/-- The plan for the text of a file. -/
def ofBuffer (settings : Settings) (file : Path) (buffer : Buffer) : Plan :=
  let report := Formatter.scan settings buffer.contents
  { edits := report.proposals.map (Edit.ofProposal file buffer)
    refusals := report.refusals }

/-- All edits of the plan, or the first error among them. -/
def all (plan : Plan) : Except EditError (List Edit) :=
  plan.edits.mapM id

end Plan

/-- What one pass over a text does. -/
structure Pass where
  edits : List Edit
  results : List EditResult
  text : Text

/-- One pass over a text: all that is offered in it is put in its place. -/
def Pass.run (settings : Settings) (file : Path) (text : Text) : Except EditError Pass := do
  let edits ← (Plan.ofBuffer settings file (.ofText text)).all
  let (text, results) ← Edit.applyAll text edits
  return { edits, results, text }

end LogTemplate
