import LogTemplate.Edit.Batch
import LogTemplate.Proofs.Source.Place
import Mathlib.Data.List.Basic

namespace LogTemplate

theorem Expected.admits_ofText (text : Text) : (Expected.ofText text).admits text = true := by
  rw [Expected.ofText]
  split
  · exact beq_self_eq_true text
  · exact beq_self_eq_true (Digest.ofBytes text.toBytes)

namespace Edit

variable {file : Path} {buffer : Buffer} {span : Span} {replacement before part : Text}

theorem offsetIn_eq_ok_iff {position : Position} {offset : Nat} :
    offsetIn file buffer position = .ok offset ↔ buffer.offset? position = .ok (some offset) := by
  rw [offsetIn]
  split
  · rename_i h
    simp [h]
  · rename_i h
    simp [h]
  · rename_i h
    simp [h]

theorem pin_eq_ok_iff {edit : Edit} :
    pin file buffer span replacement = .ok edit ↔
      ∃ start stop found, buffer.offset? span.start = .ok (some start) ∧
        buffer.offset? span.stop = .ok (some stop) ∧
        buffer.text.slice? start stop = some found ∧
        replacing file start stop replacement found = edit := by
  simp only [← @offsetIn_eq_ok_iff file]
  rw [pin]
  cases offsetIn file buffer span.start with
  | error => simp [bind, Except.bind]
  | ok start =>
      cases offsetIn file buffer span.stop with
      | error => simp [bind, Except.bind]
      | ok stop =>
          cases hslice : buffer.text.slice? start stop with
          | none => simp [hslice, bind, Except.bind]
          | some found => simp [hslice, bind, Except.bind, pure, Except.pure]

theorem pin_eq_ok (hstart : buffer.Before span.start before)
    (hstop : buffer.Before span.stop (before ++ part))
    (hsize : buffer.text.byteSize < wordSize) :
    pin file buffer span replacement =
      .ok (replacing file before.byteSize (before ++ part).byteSize replacement part) := by
  obtain ⟨after, htext⟩ := hstop.exists_append
  have hslice : buffer.text.slice? before.byteSize (before ++ part).byteSize = some part :=
    Text.slice?_eq_some_iff.mpr ⟨before, after, by simp [htext], rfl, rfl⟩
  exact pin_eq_ok_iff.mpr ⟨_, _, part, Buffer.offset?_eq_ok hstart hsize,
    Buffer.offset?_eq_ok hstop hsize, hslice, rfl⟩

/-- The edit was made for the text that its bytes hold, and would change it. -/
structure Fits (edit : Edit) (content : Text) : Prop where
  start_lt_stop : edit.start < edit.stop
  exists_slice : ∃ found, content.slice? edit.start edit.stop = some found ∧
    edit.expected = .ofText found ∧ found ≠ edit.newText

theorem Fits.exists_current {edit : Edit} {content : Text} (h : edit.Fits content) :
    ∃ found, edit.current content = .ok found := by
  obtain ⟨found, hslice, hexpected, -⟩ := h.exists_slice
  refine ⟨found, ?_⟩
  rw [current, hslice]
  simp [hexpected, Expected.admits_ofText]

theorem Fits.result_eq {edit : Edit} {content : Text} (h : edit.Fits content) :
    edit.result content = .applied edit.file edit.newText.byteSize := by
  obtain ⟨found, hslice, -, hne⟩ := h.exists_slice
  simp [result, hslice, hne]

theorem forM_current_eq_ok_iff {edits : List Edit} {content : Text} :
    (edits.forM fun edit => discard (edit.current content)) = .ok () ↔
      ∀ edit ∈ edits, ∃ found, edit.current content = .ok found := by
  induction edits with
  | nil => exact ⟨fun _ _ hedit => absurd hedit List.not_mem_nil, fun _ => rfl⟩
  | cons edit edits ih =>
      rw [List.forall_mem_cons, ← ih, List.forM]
      cases edit.current content with
      | error error =>
          constructor
          · intro h
            cases h
          · rintro ⟨⟨found, hfound⟩, -⟩
            cases hfound
      | ok found => exact ⟨fun h => ⟨⟨found, rfl⟩, h⟩, fun h => h.2⟩

theorem checkAll_eq_ok_iff {edits : List Edit} {content : Text} :
    checkAll content edits = .ok () ↔
      (∀ edit ∈ edits, ∃ found, edit.current content = .ok found) ∧ overlap? edits = none := by
  rw [checkAll, ← forM_current_eq_ok_iff]
  cases hforM : edits.forM fun edit => discard (edit.current content) with
  | error error => simp [bind, Except.bind]
  | ok _ => cases overlap? edits <;> simp [bind, Except.bind]

theorem backward_perm (edits : List Edit) : (backward edits).Perm edits :=
  List.mergeSort_perm _ _

theorem startsBehind_trans (a b c : Edit) (hab : decide (b.start ≤ a.start) = true)
    (hbc : decide (c.start ≤ b.start) = true) : decide (c.start ≤ a.start) = true := by
  rw [decide_eq_true_eq] at hab hbc ⊢
  omega

theorem startsBehind_total (a b : Edit) :
    (decide (b.start ≤ a.start) || decide (a.start ≤ b.start)) = true := by
  rw [Bool.or_eq_true, decide_eq_true_eq, decide_eq_true_eq]
  omega

theorem backward_pairwise (edits : List Edit) :
    (backward edits).Pairwise fun a b => b.start ≤ a.start := by
  have hsorted := List.pairwise_mergeSort startsBehind_trans startsBehind_total edits
  simpa only [backward, decide_eq_true_eq] using hsorted

/-- One of the two edits stops before the other one starts. -/
def Apart (a b : Edit) : Prop :=
  a.stop ≤ b.start ∨ b.stop ≤ a.start

theorem Apart.symm {a b : Edit} (h : Apart a b) : Apart b a :=
  Or.symm h

theorem backward_apart {edits : List Edit} (hle : ∀ edit ∈ edits, edit.start ≤ edit.stop)
    (hapart : edits.Pairwise Apart) (hne : edits.Pairwise fun a b => a.start ≠ b.start) :
    (backward edits).Pairwise fun a b => b.stop ≤ a.start := by
  have hboth : (backward edits).Pairwise fun a b => Apart a b ∧ a.start ≠ b.start := by
    have hsymm : ∀ {a b : Edit}, (Apart a b ∧ a.start ≠ b.start) → Apart b a ∧ b.start ≠ a.start :=
      fun h => ⟨h.1.symm, h.2.symm⟩
    rw [(backward_perm edits).pairwise_iff hsymm]
    exact List.pairwise_and_iff.mpr ⟨hapart, hne⟩
  refine (List.pairwise_and_iff.mpr ⟨backward_pairwise edits, hboth⟩).imp_of_mem ?_
  rintro a b ha hb ⟨hsorted, hstop | hstop, hstart⟩
  · have hspan := hle a ((backward_perm edits).mem_iff.mp ha)
    omega
  · exact hstop

theorem overlap?_eq_none {edits : List Edit} (h : edits.Pairwise fun a b => b.stop ≤ a.start) :
    overlap? edits = none := by
  induction edits with
  | nil => rfl
  | cons later edits ih =>
      obtain ⟨hlater, hrest⟩ := List.pairwise_cons.mp h
      cases edits with
      | nil => rfl
      | cons earlier edits =>
          have hstop := hlater earlier List.mem_cons_self
          rw [overlap?, if_neg (by omega)]
          exact ih hrest

/-- Edits that fit the text and follow each other in it can all be applied, and each of them
changes it. -/
theorem applyAll_eq_ok {content : Text} {edits : List Edit}
    (hfits : ∀ edit ∈ edits, edit.Fits content)
    (happart : edits.Pairwise fun a b => a.stop ≤ b.start) :
    applyAll content edits =
      .ok ((backward edits).foldl splice content,
        edits.map fun edit => .applied edit.file edit.newText.byteSize) := by
  have hlt : ∀ edit ∈ edits, edit.start < edit.stop :=
    fun edit hedit => (hfits edit hedit).start_lt_stop
  have hne : edits.Pairwise fun a b => a.start ≠ b.start :=
    happart.imp_of_mem fun ha _ hstop => Nat.ne_of_lt (Nat.lt_of_lt_of_le (hlt _ ha) hstop)
  have hcheck : checkAll content (backward edits) = .ok () := by
    refine checkAll_eq_ok_iff.mpr ⟨?_, overlap?_eq_none (backward_apart ?_ ?_ hne)⟩
    · intro edit hedit
      exact (hfits edit ((backward_perm edits).mem_iff.mp hedit)).exists_current
    · exact fun edit hedit => (hlt edit hedit).le
    · exact happart.imp Or.inl
  have hresults : (edits.map (·.result content)) =
      edits.map fun edit => .applied edit.file edit.newText.byteSize :=
    List.map_congr_left fun edit hedit => (hfits edit hedit).result_eq
  simp only [applyAll, hcheck, hresults, bind, Except.bind]
  rfl

end Edit

end LogTemplate
