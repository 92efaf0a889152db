import LogTemplate.Proofs.Edit.Batch
import LogTemplate.Proofs.Proposal.Change

namespace LogTemplate.Formatter

open Statement

variable {settings : Settings} {lines : List Text} {line trigger trigger' : Nat}
  {proposal proposal' : Proposal}

/-- The proposal is what is offered for the statement around a line. -/
structure Offered (settings : Settings) (lines : List Text) (trigger : Nat) (proposal : Proposal) :
    Prop where
  lt_length : trigger < lines.length
  offer_eq : offer settings lines (locate lines trigger) = .ok (.proposed proposal)

theorem exists_offered_of_mem (h : proposal ∈ (scanFrom settings lines line).proposals) :
    ∃ trigger, line ≤ trigger ∧ Offered settings lines trigger proposal := by
  fun_induction scanFrom settings lines line with
  | case1 line hline statement past found hoffer report ih =>
      rcases List.mem_cons.mp h with rfl | hmem
      · exact ⟨line, Nat.le_refl line, hline, hoffer⟩
      · obtain ⟨trigger, hle, hoffered⟩ := ih hmem
        exact ⟨trigger, by omega, hoffered⟩
  | case2 line hline statement reason hoffer ih =>
      obtain ⟨trigger, hle, hoffered⟩ := ih h
      exact ⟨trigger, by omega, hoffered⟩
  | case3 line hline statement past refusal hoffer report ih =>
      obtain ⟨trigger, hle, hoffered⟩ := ih h
      exact ⟨trigger, by omega, hoffered⟩
  | case4 line hline => simp at h

theorem Offered.last_lt_first (h : Offered settings lines trigger proposal)
    (h' : Offered settings lines trigger' proposal')
    (hpast : max proposal.statement.last trigger < trigger') :
    proposal.statement.last < proposal'.statement.first := by
  obtain ⟨extent, hextent, hstatement, ⟨origin⟩⟩ := exists_extent_of_offer h.lt_length h.offer_eq
  obtain ⟨extent', hextent', hstatement', -⟩ := exists_extent_of_offer h'.lt_length h'.offer_eq
  have hcloses : closes extent.final = true :=
    List.any_eq_true.mpr ⟨';', origin.semicolon_mem_final hstatement, by decide⟩
  have hlast : lines[proposal.statement.last]? = some extent.final := by
    rw [← hstatement, ← hextent.lines_eq, extent.getElem?_last]
  by_contra hle
  have hopen := hextent'.open_above proposal.statement.last extent.final
    (by rw [hstatement']; omega) (by omega) hlast
  simp [hcloses] at hopen

theorem scanFrom_pairwise (settings : Settings) (lines : List Text) (line : Nat) :
    (scanFrom settings lines line).proposals.Pairwise
      fun p q => p.statement.last < q.statement.first := by
  fun_induction scanFrom settings lines line with
  | case1 line hline statement past found hoffer report ih =>
      refine List.pairwise_cons.mpr ⟨?_, ih⟩
      intro other hother
      obtain ⟨trigger, hle, hoffered⟩ := exists_offered_of_mem hother
      have hfound : Offered settings lines line found := ⟨hline, hoffer⟩
      have hstatement := (nonempty_origin_of_offer hoffer).1
      apply hfound.last_lt_first hoffered
      rw [hstatement]
      omega
  | case2 line hline statement reason hoffer ih => exact ih
  | case3 line hline statement past refusal hoffer report ih => exact ih
  | case4 line hline => exact .nil

theorem covered_ne_nil {code : Text} (h : code ≠ []) : covered code ≠ [] := by
  rw [covered]
  split
  · simp
  · exact h

variable {text : Text} {file : Path} {edit edit' : Edit}

/-- The text that a proposal replaces: it stands between the positions of the span, is not empty
and is not the replacement. -/
theorem Offered.exists_before
    (h : Offered settings (Buffer.ofText text).contents trigger proposal) :
    ∃ before part, (Buffer.ofText text).Before proposal.span.start before ∧
      (Buffer.ofText text).Before proposal.span.stop (before ++ part) ∧
      part ≠ [] ∧ part ≠ proposal.replacement := by
  obtain ⟨extent, hextent, hstatement, ⟨origin⟩⟩ := exists_extent_of_offer h.lt_length h.offer_eq
  have hfinal := origin.final_trim_ne_nil hstatement
  obtain ⟨part, ⟨before, hstart, hstop⟩, hlength, hjoin⟩ :=
    exists_holds_spanOf hextent.lines_eq hfinal
  rw [hextent.lines_eq, hstatement, ← origin.span_eq] at hstart hstop
  refine ⟨before, part, hstart, hstop, ?_, ?_⟩
  · rintro rfl
    have hnil : covered extent.final.trim = [] := (List.append_eq_nil_iff.mp hjoin.symm).2
    exact covered_ne_nil hfinal hnil
  · cases hpasses : origin.layout.call.passesLevel with
    | false => exact ne_replacement_of_not_passesLevel origin hstatement hjoin hpasses
    | true =>
        have hcode := newline_not_mem_code hextent.lines_eq (Buffer.newline_not_mem_contents text)
        rw [hstatement] at hcode
        exact ne_replacement_of_passesLevel origin hstatement hjoin hcode hlength hpasses

structure Pinned (text : Text) (file : Path) (proposal : Proposal) (edit : Edit) : Prop where
  ofProposal_eq : Edit.ofProposal file (.ofText text) proposal = .ok edit
  fits : edit.Fits text
  changes : ∃ found, (Buffer.ofText text).slice? proposal.span = .ok (some found) ∧
    found ≠ proposal.replacement
  exists_start : ∃ before, (Buffer.ofText text).Before proposal.span.start before ∧
    edit.start = before.byteSize
  exists_stop : ∃ before, (Buffer.ofText text).Before proposal.span.stop before ∧
    edit.stop = before.byteSize

theorem Offered.exists_pinned (file : Path) (hsize : text.byteSize < wordSize)
    (h : Offered settings (Buffer.ofText text).contents trigger proposal) :
    ∃ edit, Pinned text file proposal edit := by
  obtain ⟨before, part, hstart, hstop, hne, hchange⟩ := h.exists_before
  have hbuffer : (Buffer.ofText text).text.byteSize < wordSize := by rwa [Buffer.text_ofText]
  obtain ⟨after, htext⟩ := hstop.exists_append
  rw [Buffer.text_ofText] at htext
  have hslice : text.slice? before.byteSize (before ++ part).byteSize = some part :=
    Text.slice?_eq_some_iff.mpr ⟨before, after, by simp [htext], rfl, rfl⟩
  have hpositive : 0 < part.byteSize := by
    rw [Nat.pos_iff_ne_zero]
    simpa using hne
  refine ⟨_, Edit.pin_eq_ok hstart hstop hbuffer, ⟨?_, part, hslice, rfl, hchange⟩, ?_,
    ⟨before, hstart, rfl⟩, ⟨before ++ part, hstop, rfl⟩⟩
  · simp only [Edit.replacing, Text.byteSize_append]
    omega
  · have hholds : (Buffer.ofText text).Holds proposal.span part := ⟨before, hstart, hstop⟩
    exact ⟨part, hholds.slice?_eq_ok hbuffer, hchange⟩

theorem Pinned.stop_le_start (h : Pinned text file proposal edit)
    (h' : Pinned text file proposal' edit')
    (hlt : proposal.span.stop.line < proposal'.span.start.line) : edit.stop ≤ edit'.start := by
  obtain ⟨before, hstop, heq⟩ := h.exists_stop
  obtain ⟨before', hstart, heq'⟩ := h'.exists_start
  rw [heq, heq']
  exact hstop.byteSize_le hstart hlt

theorem Offered.span_lines (h : Offered settings lines trigger proposal) :
    proposal.span.start.line = proposal.statement.first ∧
      proposal.span.stop.line = proposal.statement.last := by
  obtain ⟨-, ⟨origin⟩⟩ := nonempty_origin_of_offer h.offer_eq
  rw [origin.span_eq]
  exact ⟨rfl, rfl⟩

theorem exists_edits {proposals : List Proposal}
    (h : ∀ proposal ∈ proposals, ∃ edit, Pinned text file proposal edit)
    (hlines : proposals.Pairwise fun p q => p.span.stop.line < q.span.start.line) :
    ∃ edits : List Edit,
      proposals.map (Edit.ofProposal file (.ofText text)) = edits.map .ok ∧
      (∀ edit ∈ edits, ∃ proposal ∈ proposals, Pinned text file proposal edit) ∧
      edits.Pairwise fun a b => a.stop ≤ b.start := by
  induction proposals with
  | nil => exact ⟨[], rfl, by simp, .nil⟩
  | cons proposal proposals ih =>
      obtain ⟨hfirst, hrest⟩ := List.pairwise_cons.mp hlines
      obtain ⟨edit, hpinned⟩ := h proposal List.mem_cons_self
      obtain ⟨edits, hmap, hedits, happart⟩ :=
        ih (fun other hother => h other (List.mem_cons_of_mem _ hother)) hrest
      refine ⟨edit :: edits, ?_, ?_, List.pairwise_cons.mpr ⟨?_, happart⟩⟩
      · rw [List.map_cons, List.map_cons, hpinned.ofProposal_eq, hmap]
      · intro other hother
        rcases List.mem_cons.mp hother with rfl | hother
        · exact ⟨proposal, List.mem_cons_self, hpinned⟩
        · obtain ⟨source, hsource, hother⟩ := hedits other hother
          exact ⟨source, List.mem_cons_of_mem _ hsource, hother⟩
      · intro other hother
        obtain ⟨source, hsource, hother⟩ := hedits other hother
        exact hpinned.stop_le_start hother (hfirst source hsource)

/-- All proposals for a text can be turned into edits of the file it was read from, and these can
be applied to it together. Every one of them changes the text that it replaces. Offsets are words,
and the size of a text in memory is one. -/
theorem applyAll_scan (settings : Settings) (file : Path) {text : Text}
    (hsize : text.byteSize < wordSize) :
    ∃ (edits : List Edit) (result : Text),
      (scan settings (Buffer.ofText text).contents).proposals.map
        (Edit.ofProposal file (.ofText text)) = edits.map .ok ∧
      Edit.applyAll text edits =
        .ok (result, edits.map fun edit => .applied edit.file edit.newText.byteSize) ∧
      ∀ proposal ∈ (scan settings (Buffer.ofText text).contents).proposals,
        ∃ found, (Buffer.ofText text).slice? proposal.span = .ok (some found) ∧
          found ≠ proposal.replacement := by
  have hoffered : ∀ proposal ∈ (scan settings (Buffer.ofText text).contents).proposals,
      ∃ trigger, Offered settings (Buffer.ofText text).contents trigger proposal := by
    intro proposal hmem
    obtain ⟨trigger, -, hoffered⟩ := exists_offered_of_mem hmem
    exact ⟨trigger, hoffered⟩
  have hpinned : ∀ proposal ∈ (scan settings (Buffer.ofText text).contents).proposals,
      ∃ edit, Pinned text file proposal edit := by
    intro proposal hmem
    obtain ⟨trigger, hoffered⟩ := hoffered proposal hmem
    exact hoffered.exists_pinned file hsize
  have hlines : (scan settings (Buffer.ofText text).contents).proposals.Pairwise
      fun p q => p.span.stop.line < q.span.start.line := by
    refine (scanFrom_pairwise settings (Buffer.ofText text).contents 0).imp_of_mem ?_
    intro p q hp hq hlt
    obtain ⟨_, hp⟩ := hoffered p hp
    obtain ⟨_, hq⟩ := hoffered q hq
    rw [hp.span_lines.2, hq.span_lines.1]
    exact hlt
  obtain ⟨edits, hmap, hedits, happart⟩ := exists_edits hpinned hlines
  have hfits : ∀ edit ∈ edits, edit.Fits text := by
    intro edit hedit
    obtain ⟨_, -, hpinned⟩ := hedits edit hedit
    exact hpinned.fits
  refine ⟨edits, _, hmap, Edit.applyAll_eq_ok hfits happart, ?_⟩
  intro proposal hmem
  obtain ⟨_, hpinned⟩ := hpinned proposal hmem
  exact hpinned.changes

/-- A source with a level method on two lines and a call of `log`. -/
def twoCallsText : Text :=
  "class A \x7b java.util.logging.Logger log;\n".toList ++
    " log.info(\"a\" +\n  x); f();\n log.log(l, y);\n\x7d".toList

theorem applyAll_twoCallsText :
    twoCallsText.byteSize < wordSize ∧
      (scan .default (Buffer.ofText twoCallsText).contents).proposals.length = 2 ∧
      ∃ (edits : List Edit) (result : Text),
        (scan .default (Buffer.ofText twoCallsText).contents).proposals.map
          (Edit.ofProposal ⟨"A.java".toList⟩ (.ofText twoCallsText)) = edits.map .ok ∧
        Edit.applyAll twoCallsText edits =
          .ok (result, edits.map fun edit => .applied edit.file edit.newText.byteSize) := by
  have hsize : twoCallsText.byteSize < wordSize := by decide +kernel
  obtain ⟨edits, result, hmap, happly, -⟩ :=
    applyAll_scan .default ⟨"A.java".toList⟩ hsize
  exact ⟨hsize, by decide +kernel, edits, result, hmap, happly⟩

end LogTemplate.Formatter
