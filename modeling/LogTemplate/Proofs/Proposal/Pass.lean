import LogTemplate.Edit.Plan
import LogTemplate.Proofs.Proposal.Rewrite
import LogTemplate.Proofs.Source.Returns

namespace LogTemplate

theorem Edit.applyAll_nil (text : Text) : applyAll text [] = .ok (text, []) := by
  simp [applyAll, backward, checkAll, overlap?, bind, Except.bind, pure, Except.pure]

namespace Formatter

variable {settings : Settings} {file : Path} {text : Text} {edits edits' : List Edit}

theorem all_ofBuffer
    (hedits : (scan settings (Buffer.ofText text).contents).proposals.map
      (Edit.ofProposal file (.ofText text)) = edits.map .ok) :
    (Plan.ofBuffer settings file (.ofText text)).all = .ok edits := by
  rw [Plan.all, Plan.ofBuffer, hedits, List.mapM_map]
  exact List.mapM_pure.trans (congrArg Except.ok (List.map_id edits))

theorem run_eq_ok {out : Text} {results : List EditResult}
    (hedits : (scan settings (Buffer.ofText text).contents).proposals.map
      (Edit.ofProposal file (.ofText text)) = edits.map .ok)
    (happly : Edit.applyAll text edits = .ok (out, results)) :
    Pass.run settings file text = .ok ⟨edits, results, out⟩ := by
  simp only [Pass.run, all_ofBuffer hedits, happly, bind, Except.bind, pure, Except.pure]

theorem run_of_proposals_eq_nil (file : Path)
    (h : (scan settings (Buffer.ofText text).contents).proposals = []) :
    Pass.run settings file text = .ok ⟨[], [], text⟩ := by
  apply run_eq_ok
  · rw [h]
    rfl
  · exact Edit.applyAll_nil text

theorem exists_pass (settings : Settings) (file : Path) (hsize : text.byteSize < wordSize) :
    ∃ edits out, Pass.run settings file text =
        .ok ⟨edits, edits.map fun edit => .applied edit.file edit.newText.byteSize, out⟩ ∧
      List.Forall₂ (Pinned text file) (scan settings (Buffer.ofText text).contents).proposals
        edits ∧
      Edit.applyAll text edits =
        .ok (out, edits.map fun edit => .applied edit.file edit.newText.byteSize) ∧
      Edit.weave? text 0 edits = some out := by
  have hoffered : ∀ proposal ∈ (scan settings (Buffer.ofText text).contents).proposals,
      ∃ trigger, Offered settings (Buffer.ofText text).contents trigger proposal := by
    intro proposal hmem
    obtain ⟨trigger, -, hoffered⟩ := exists_offered_of_mem hmem
    exact ⟨trigger, hoffered⟩
  obtain ⟨edits, out, hpinned, happly, hweave⟩ :=
    exists_pinned_edits file hsize hoffered (scanFrom_pairwise settings _ 0)
  exact ⟨edits, out, run_eq_ok (map_ofProposal_of_pinned hpinned) happly, hpinned, happly, hweave⟩

section Returns

variable {proposal : Proposal} {proposals : List Proposal} {edit edit' : Edit}
  (hreturn : '\r' ∉ text) (hsize : text.withReturns.byteSize < wordSize)

include hreturn hsize

theorem Pinned.returned (h : Pinned text file proposal edit)
    (h' : Pinned text.withReturns file proposal edit') (hnewline : '\n' ∉ proposal.replacement) :
    Edit.Returned text edit edit' := by
  have hbuffer : (Buffer.ofText text.withReturns).text.byteSize < wordSize := by
    rwa [Buffer.text_ofText]
  obtain ⟨before, hbefore, hstart⟩ := h.exists_start
  obtain ⟨through, hthrough, hstop⟩ := h.exists_stop
  obtain ⟨-, -, -, hnewText⟩ := Edit.of_ofProposal h.ofProposal_eq
  obtain ⟨-, hstart', hstop', hnewText'⟩ := Edit.of_ofProposal h'.ofProposal_eq
  rw [Buffer.offset?_eq_ok (hbefore.withReturns hreturn) hbuffer, Except.ok.injEq,
    Option.some.injEq] at hstart'
  rw [Buffer.offset?_eq_ok (hthrough.withReturns hreturn) hbuffer, Except.ok.injEq,
    Option.some.injEq] at hstop'
  refine ⟨⟨before, ?_, hstart, hstart'.symm⟩, ⟨through, ?_, hstop, hstop'.symm⟩,
    hnewText'.trans hnewText.symm, ?_⟩
  · obtain ⟨after, htext⟩ := hbefore.exists_append
    exact ⟨after, by rw [← htext, Buffer.text_ofText]⟩
  · obtain ⟨after, htext⟩ := hthrough.exists_append
    exact ⟨after, by rw [← htext, Buffer.text_ofText]⟩
  · rwa [hnewText]

theorem returned_of_pinned (h : List.Forall₂ (Pinned text file) proposals edits)
    (h' : List.Forall₂ (Pinned text.withReturns file) proposals edits')
    (hnewline : ∀ proposal ∈ proposals, '\n' ∉ proposal.replacement) :
    List.Forall₂ (Edit.Returned text) edits edits' := by
  induction h generalizing edits' with
  | nil =>
      cases h'
      exact .nil
  | cons hpinned _ ih =>
      cases h' with
      | cons hpinned' hrest' =>
          rw [List.forall_mem_cons] at hnewline
          exact .cons (hpinned.returned hreturn hsize hpinned' hnewline.1) (ih hrest' hnewline.2)

end Returns

/-- How lines end does not matter, and it is kept: in a text with returns before the newlines the
same is found as without them, and the pass over it leaves what the other pass leaves, with
returns. -/
theorem run_withReturns (settings : Settings) (file : Path) {text : Text} (hreturn : '\r' ∉ text)
    (htype : settings.levelType.any isBlank = false)
    (hsize : text.withReturns.byteSize < wordSize) :
    scan settings (Buffer.ofText text.withReturns).contents =
        scan settings (Buffer.ofText text).contents ∧
      ∃ pass pass', Pass.run settings file text = .ok pass ∧
        Pass.run settings file text.withReturns = .ok pass' ∧
        pass'.text = pass.text.withReturns := by
  have hcontents := Buffer.contents_withReturns hreturn
  obtain ⟨edits, out, hrun, hpinned, -, hweave⟩ :=
    exists_pass settings file (text.byteSize_le_withReturns.trans_lt hsize)
  obtain ⟨edits', out', hrun', hpinned', -, hweave'⟩ := exists_pass settings file hsize
  refine ⟨congrArg (scan settings) hcontents, _, _, hrun, hrun', ?_⟩
  have hnewline : ∀ proposal ∈ (scan settings (Buffer.ofText text).contents).proposals,
      '\n' ∉ proposal.replacement := by
    intro proposal hmem
    obtain ⟨trigger, -, hoffered⟩ := exists_offered_of_mem hmem
    exact hoffered.newline_not_mem_replacement fun hc =>
      List.any_eq_false.mp htype '\n' hc (by decide)
  rw [hcontents] at hpinned'
  have hreturned := returned_of_pinned hreturn hsize hpinned hpinned' hnewline
  have hwoven := Edit.weave?_withReturns hreturned List.nil_prefix hweave
  exact Option.some.inj (hweave'.symm.trans hwoven)

/-- A call that goes over two lines, between an empty line and a last line without an end. -/
def wrappedText : Text :=
  "class A \x7b java.util.logging.Logger log;\n\n  log.info(\"id \" +\n    id);\n\x7d".toList

def wrappedPass : Pass where
  edits :=
    [⟨⟨"A.java".toList⟩, 43, 68, "log.log(Level.INFO, \"id \x7b0\x7d\", id);".toList,
      .exact "log.info(\"id \" +\n    id);".toList⟩]
  results := [.applied ⟨"A.java".toList⟩ 34]
  text :=
    "class A \x7b java.util.logging.Logger log;\n\n".toList ++
      "  log.log(Level.INFO, \"id \x7b0\x7d\", id);\n\x7d".toList

theorem run_wrappedText_withReturns :
    Pass.run .default ⟨"A.java".toList⟩ wrappedText = .ok wrappedPass ∧
      ∃ pass, Pass.run .default ⟨"A.java".toList⟩ wrappedText.withReturns = .ok pass ∧
        pass.text = "class A \x7b java.util.logging.Logger log;\r\n\r\n".toList ++
          "  log.log(Level.INFO, \"id \x7b0\x7d\", id);\r\n\x7d".toList := by
  have hrun : Pass.run .default ⟨"A.java".toList⟩ wrappedText = .ok wrappedPass := by
    have hbackward : Edit.backward wrappedPass.edits = wrappedPass.edits := by
      simp [Edit.backward, wrappedPass]
    have happly : Edit.applyAll wrappedText wrappedPass.edits =
        .ok (wrappedPass.text, wrappedPass.results) := by
      rw [Edit.applyAll, hbackward]
      decide +kernel
    exact run_eq_ok (by decide +kernel) happly
  obtain ⟨-, pass, pass', hpass, hpass', htext⟩ :=
    run_withReturns .default ⟨"A.java".toList⟩ (by decide +kernel : '\r' ∉ wrappedText)
      (by decide) (by decide +kernel)
  obtain rfl := Except.ok.inj (hrun.symm.trans hpass)
  exact ⟨hrun, pass', hpass', htext.trans (by decide)⟩

end Formatter

end LogTemplate
