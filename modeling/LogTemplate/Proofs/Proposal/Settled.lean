import LogTemplate.Proofs.Proposal.Rewrite
import LogTemplate.Proofs.Source.Above

namespace LogTemplate.Formatter

open Statement

variable {settings : Settings} {text : Text} {lines : List Text} {proposal : Proposal}
  {trigger : Nat}

namespace Origin

variable (origin : Origin settings lines proposal)
  (hreceiver : isReceiver origin.layout.owner = true)

include hreceiver

theorem exists_replacement_eq : ∃ tail, proposal.replacement = origin.layout.owner ++ tail := by
  have htrim : origin.layout.call.receiver = origin.layout.owner := trim_owner hreceiver
  obtain ⟨tail, hhead⟩ : ∃ tail, origin.head = origin.layout.owner ++ tail := by
    obtain ⟨-, ⟨-, _, -, hhead⟩ | ⟨-, -, hhead⟩⟩ := Call.cases_of_headAndMessage origin.parts
    · exact ⟨_, htrim ▸ hhead⟩
    · rw [hhead, htrim, List.append_assoc, List.append_assoc]
      exact ⟨_, rfl⟩
  rw [origin.replacement_eq, replacement, hhead]
  simp only [List.append_assoc]
  exact ⟨_, rfl⟩

theorem trimmed_replacement : Text.Trimmed proposal.replacement := by
  constructor
  · intro c hc
    obtain ⟨tail, htail⟩ := origin.exists_replacement_eq hreceiver
    cases howner : origin.layout.owner with
    | nil => simp [howner, isReceiver] at hreceiver
    | cons d owner =>
        obtain rfl : d = c := by simpa [htail, howner] using hc
        exact isBlank_eq_false_of_mem_owner hreceiver d (by simp [howner])
  · intro c hc
    rw [origin.getLast?_replacement] at hc
    obtain rfl := Option.some.inj hc
    decide

theorem trim_newLine {indent : Text} (hindent : Text.AllBlank indent) (after : Text) :
    Text.trim (indent ++ (proposal.replacement ++ after)) =
      proposal.replacement ++ Text.trimEnd after := by
  have hne : proposal.replacement ≠ [] := by
    intro hnil
    have hlast := origin.getLast?_replacement
    simp [hnil] at hlast
  rw [Text.trim_blank_append hindent]
  exact Text.trim_append after (origin.trimmed_replacement hreceiver) hne

end Origin

theorem Origin.semicolon_mem_newLine (origin : Origin settings lines proposal)
    (indent rest : Text) :
    ';' ∈ indent ++ (proposal.replacement ++ rest) :=
  List.mem_append_right _
    (List.mem_append_left _ (List.mem_of_getLast? origin.getLast?_replacement))

theorem skipped_newLine {lines' below : List Text} {n : Nat} {indent rest : Text}
    (origin : Origin settings lines proposal) (hreceiver : isReceiver origin.layout.owner = true)
    (hlevel : isLogLevel origin.layout.level = true) (hname : DottedName settings.levelType)
    (hindent : Text.AllBlank indent)
    (hlines' : lines'.drop n = (indent ++ (proposal.replacement ++ rest)) :: below)
    (habove : ∀ other ∈ above lines' n, other = []) :
    Skipped settings lines' (locate lines' n) := by
  apply skipped_of_replacement origin hreceiver hlevel hname
  rw [locate_code_of_semicolon hlines' habove (origin.semicolon_mem_newLine indent rest),
    origin.trim_newLine hreceiver hindent]

/-- After the edit of a proposal alone, nothing is offered for the line where it was put. -/
theorem propose_after_edit (file : Path) (hsize : text.byteSize < wordSize)
    (hname : DottedName settings.levelType)
    (h : propose settings (Buffer.ofText text).contents trigger = .ok (.proposed proposal)) :
    ∃ edit out results reason, Edit.ofProposal file (.ofText text) proposal = .ok edit ∧
      Edit.applyAll text [edit] = .ok (out, results) ∧
      propose settings (Buffer.ofText out).contents proposal.span.start.line =
        .ok (.skipped reason) := by
  obtain ⟨htrigger, hoffer⟩ := offer_of_propose h
  have hoffered : Offered settings (Buffer.ofText text).contents trigger proposal :=
    ⟨htrigger, hoffer⟩
  obtain ⟨extent, hextent, hstatement, ⟨origin⟩⟩ := exists_extent_of_offer htrigger hoffer
  obtain ⟨hreceiver, hlevel, -⟩ := origin.shape hstatement
  have habove := above_first htrigger
  rw [← hextent.statement_eq, hstatement] at habove
  obtain ⟨edits, out, results, hedits, happly, hrewritten⟩ :=
    exists_applyAll_of_offered file hsize hname (List.forall_mem_singleton.mpr ⟨_, hoffered⟩)
      (List.pairwise_singleton _ _)
  obtain ⟨edit, rfl, hedit⟩ := List.map_eq_singleton_iff.mp hedits.symm
  have hpropose : ∀ {lines lines' : List Text}, Rewritten 0 lines [proposal] lines' →
      (∀ other ∈ above lines proposal.statement.first, other = []) →
      ∃ reason, propose settings lines' proposal.statement.first = .ok (.skipped reason) := by
    intro lines lines' hlines habove
    cases hlines with
    | cons hfirst _ _ hindent _ _ _ =>
        rw [Nat.zero_add] at hfirst
        rw [hfirst, above_append_left] at habove
        rw [hfirst, propose, if_pos (by simp)]
        refine skipped_newLine origin hreceiver hlevel hname hindent List.drop_left ?_
        rwa [above_append_left]
  obtain ⟨reason, hreason⟩ := hpropose hrewritten habove
  rw [← hoffered.span_lines.1] at hreason
  exact ⟨edit, out, results, reason, hedit.symm, happly, hreason⟩

/-- A message without parameters on three lines, with another statement behind the call. -/
def fixedText : Text :=
  "class A \x7b java.util.logging.Logger log;\n\n\tlog.info(\"a, \" +\n  \"b\" +\n".toList ++
    "  \"\\\"c;\"); f();\n\x7d\n".toList

def fixedProposal : Proposal where
  span := ⟨⟨2, 1⟩, ⟨4, 10⟩⟩
  replacement := "log.log(Level.INFO, \"a, b\\\"c;\", new Object[] \x7b\x7d);".toList
  statement := ⟨"log.info(\"a, \" +\"b\" +\"\\\"c;\"); f();".toList, 2, 4⟩
  template := ⟨"\"a, b\\\"c;\"".toList, []⟩

theorem propose_fixedText_after_edit :
    propose .default (Buffer.ofText fixedText).contents 3 = .ok (.proposed fixedProposal) ∧
      fixedProposal.template.params = [] ∧
      ∃ edit out results reason,
        Edit.ofProposal ⟨"A.java".toList⟩ (.ofText fixedText) fixedProposal = .ok edit ∧
        Edit.applyAll fixedText [edit] = .ok (out, results) ∧
        propose .default (Buffer.ofText out).contents 2 = .ok (.skipped reason) := by
  have hpropose : propose .default (Buffer.ofText fixedText).contents 3 =
      .ok (.proposed fixedProposal) := by
    decide +kernel
  exact ⟨hpropose, rfl,
    propose_after_edit ⟨"A.java".toList⟩ (by decide +kernel) (by decide) hpropose⟩

end LogTemplate.Formatter
