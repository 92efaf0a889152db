import LogTemplate.Proofs.Proposal.Enclosing

namespace LogTemplate.Formatter

open Delimiter

variable {settings : Settings} {text : Text} {proposal : Proposal} {trigger : Nat}

namespace Renewal

variable {old : Call.Layout} (renewal : Renewal settings proposal old)

theorem replacement_eq : proposal.replacement = renewal.layout.owner ++ '.' ::
    (renewal.layout.level ++ '(' :: (renewal.layout.arguments ++ ");".toList)) := by
  rw [← renewal.text_eq, Call.Layout.text, renewal.gap_eq]
  rfl

include renewal in
theorem isLoggingCall_replacement (hreceiver : isReceiver old.owner = true)
    (htrimmed : Text.Trimmed proposal.replacement) (hnewline : '\n' ∉ proposal.replacement) :
    isLoggingCall proposal.replacement = true := by
  rw [renewal.replacement_eq] at htrimmed hnewline ⊢
  simp only [List.mem_append, List.mem_cons, not_or] at hnewline
  refine isLoggingCall_of_parts (renewal.owner_eq ▸ hreceiver) renewal.level_known ?_ htrimmed
  exact isCallTail_append (by decide) hnewline.2.2.2.2.1

theorem split?_replacement (hrest : renewal.layout.rest = []) :
    Call.split? proposal.replacement = some renewal.layout.call := by
  refine Call.split?_eq_some_iff.mpr ⟨renewal.layout, ?_, rfl⟩
  rw [renewal.code_eq hrest, List.append_nil]

end Renewal

/-- A replacement with closed parameters is a logging call and nothing else. It has the receiver of
the call that it replaces, and its arguments are the level, the template and the parameters. -/
theorem replacement_is_call (hname : DottedName settings.levelType)
    (h : propose settings (Buffer.ofText text).contents trigger = .ok (.proposed proposal))
    (hclosed : ∀ param ∈ proposal.template.params, Passed ')' 0 param) :
    isLoggingCall proposal.replacement = true ∧
      ∃ original call level message,
        Call.split? proposal.statement.code = some original ∧
        Call.split? proposal.replacement = some call ∧
        call.receiver = original.receiver ∧ call.passesLevel = true ∧
        proposal.replacement = call.receiver ++ '.' ::
          (call.level ++ '(' :: (call.arguments ++ ");".toList)) ∧
        original.levelArgument? settings.levelType = some level ∧
        cutAt ',' call.arguments = some (level, message) ∧
        cutAt ',' message =
          some (' ' :: proposal.template.text, ' ' :: proposal.template.argumentList) := by
  obtain ⟨htrigger, hoffer⟩ := offer_of_propose h
  obtain ⟨extent, -, hstatement, ⟨origin⟩⟩ := exists_extent_of_offer htrigger hoffer
  obtain ⟨hreceiver, hlevel, -⟩ := origin.shape hstatement
  obtain ⟨renewal, hrest⟩ := origin.exists_renewal hreceiver hlevel hname hclosed []
  have hnewline : '\n' ∉ proposal.replacement := by
    refine Offered.newline_not_mem_replacement ⟨htrigger, hoffer⟩ fun hmem => ?_
    exact absurd (hname _ hmem).1 (by decide)
  have hsame : renewal.layout.call.receiver = origin.layout.call.receiver :=
    congrArg Text.trim renewal.owner_eq
  have howner : renewal.layout.owner = renewal.layout.call.receiver := by
    rw [hsame, renewal.owner_eq]
    exact (trim_owner hreceiver).symm
  refine ⟨?_, origin.layout.call, renewal.layout.call, renewal.first, renewal.message, ?_,
    renewal.split?_replacement hrest, hsame, renewal.passes_level, ?_, renewal.levelArgument_eq,
    renewal.cut_first, renewal.cut_message⟩
  · exact renewal.isLoggingCall_replacement hreceiver (origin.trimmed_replacement hreceiver)
      hnewline
  · exact Call.split?_eq_some_iff.mpr ⟨origin.layout, origin.code_eq, rfl⟩
  · rw [← howner]
    exact renewal.replacement_eq

/-- The level is passed as a call, and there are delimiters in the literals of its arguments and in
those of a parameter. -/
def pickedText : Text :=
  "class A \x7b java.util.logging.Logger log;\n log.log(pick(a, \")\"), \"n=\" + ".toList ++
    "o.f(\",)\")\n   + (g(y)));\n\x7d\n".toList

def pickedProposal : Proposal where
  span := ⟨⟨1, 1⟩, ⟨2, 13⟩⟩
  replacement := ("log.log(pick(a, \")\"), \"n=\x7b0\x7d\x7b1\x7d\", ".toList ++
    "new Object[] \x7bo.f(\",)\"), (g(y))\x7d);".toList)
  statement := ⟨"log.log(pick(a, \")\"), \"n=\" + o.f(\",)\")+ (g(y)));".toList, 1, 2⟩
  template := ⟨"\"n=\x7b0\x7d\x7b1\x7d\"".toList, ["o.f(\",)\")".toList, "(g(y))".toList]⟩

theorem pickedProposal_is_call :
    propose .default (Buffer.ofText pickedText).contents 2 = .ok (.proposed pickedProposal) ∧
      (∀ param ∈ pickedProposal.template.params, Passed ')' 0 param) ∧
      isLoggingCall pickedProposal.replacement = true ∧
      ∃ original call level message,
        Call.split? pickedProposal.statement.code = some original ∧
        Call.split? pickedProposal.replacement = some call ∧
        original.levelArgument? Settings.default.levelType = some level ∧
        cutAt ',' call.arguments = some (level, message) ∧
        cutAt ',' message = some (' ' :: pickedProposal.template.text,
          ' ' :: pickedProposal.template.argumentList) := by
  have hpropose : propose .default (Buffer.ofText pickedText).contents 2 =
      .ok (.proposed pickedProposal) := by
    decide +kernel
  have hclosed : ∀ param ∈ pickedProposal.template.params, Passed ')' 0 param := by
    intro param hparam
    rcases List.mem_cons.mp hparam with rfl | hparam
    · exact ⟨by decide, by decide⟩
    · obtain rfl := List.mem_singleton.mp hparam
      exact ⟨by decide, by decide⟩
  obtain ⟨hlogging, original, call, level, message, hold, hnew, -, -, -, hlevel, hfirst,
    hmessage⟩ := replacement_is_call (by decide) hpropose hclosed
  exact ⟨hpropose, hclosed, hlogging, original, call, level, message, hold, hnew, hlevel, hfirst,
    hmessage⟩

end LogTemplate.Formatter
