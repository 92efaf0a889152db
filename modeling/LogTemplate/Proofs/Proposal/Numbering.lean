import LogTemplate.Proofs.Message.Numbering
import LogTemplate.Proofs.Proposal.Origin

namespace LogTemplate.Formatter

open Template

variable {settings : Settings} {lines : List Text} {proposal : Proposal} {trigger : Nat}

/-- The placeholders of a proposal's template are those of its parameters, in order, if and only if
no neighbouring literals of the message form one together. -/
theorem placeholders_template_iff
    (h : propose settings lines trigger = .ok (.proposed proposal)) :
    ∃ origin : Origin settings lines proposal,
      placeholders proposal.template.text =
          (List.range proposal.template.params.length).map placeholder ↔
        ∀ run ∈ literalRuns origin.operands, 2 ≤ run.length → placeholders run.flatten = [] := by
  obtain ⟨-, ⟨origin⟩⟩ := nonempty_origin_of_offer (offer_of_propose h).2
  refine ⟨origin, ?_⟩
  rw [origin.template_eq, placeholders_ofOperands_iff]
  constructor
  · intro hruns run hrun _
    exact hruns run hrun
  · intro hruns run hrun
    match run, hrun with
    | [], _ => rfl
    | [text], hrun =>
        have hmem := literal_mem_of_mem_literalRuns hrun (List.mem_singleton_self text)
        have hinfix := origin.text_infix hmem
        rw [List.flatten_cons, List.flatten_nil, List.append_nil]
        exact placeholders_eq_nil_of_infix origin.untemplated hinfix
    | first :: second :: others, hrun => exact hruns _ hrun (by simp)

/-- A message whose first two literals form a placeholder where they meet. -/
def meetingLines : List Text :=
  ["class A \x7b java.util.logging.Logger log;".toList,
    "log.info(\"\x7b\" + \"0\x7d\" + x);".toList]

def meetingProposal : Proposal where
  span := ⟨⟨1, 0⟩, ⟨1, 25⟩⟩
  replacement := "log.log(Level.INFO, \"\x7b0\x7d\x7b0\x7d\", x);".toList
  statement := ⟨"log.info(\"\x7b\" + \"0\x7d\" + x);".toList, 1, 1⟩
  template := ⟨"\"\x7b0\x7d\x7b0\x7d\"".toList, ["x".toList]⟩

theorem exists_run_of_meetingProposal :
    propose .default meetingLines 1 = .ok (.proposed meetingProposal) ∧
      meetingProposal.template.params.length = 1 ∧
      placeholders meetingProposal.template.text = [placeholder 0, placeholder 0] ∧
      ∃ origin : Origin .default meetingLines meetingProposal,
        ∃ run ∈ literalRuns origin.operands, 2 ≤ run.length ∧ placeholders run.flatten ≠ [] := by
  have hpropose : propose .default meetingLines 1 = .ok (.proposed meetingProposal) := by
    decide +kernel
  have htwice : placeholders meetingProposal.template.text = [placeholder 0, placeholder 0] := by
    decide +kernel
  obtain ⟨origin, hiff⟩ := placeholders_template_iff hpropose
  refine ⟨hpropose, rfl, htwice, origin, ?_⟩
  by_contra hnone
  have hordered := hiff.mpr fun run hrun htwo => by
    by_contra hfound
    exact hnone ⟨run, hrun, htwo, hfound⟩
  rw [htwice] at hordered
  exact absurd (congrArg List.length hordered) (by decide)

end LogTemplate.Formatter
