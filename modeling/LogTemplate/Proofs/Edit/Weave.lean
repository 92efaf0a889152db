import LogTemplate.Proofs.Edit.Batch
import Mathlib.Data.List.Basic

/-!
What applying a list of edits means. The edits are spliced into the text one after the other, from
the back; the text that comes of it is the one that a single pass from the front puts together from
the new texts and the pieces of the old text between them.
-/

namespace LogTemplate.Edit

/-- The first of two edits, each with its place in the list, comes before the second one in the
text: it starts earlier, or it starts at the same byte and stands later in the list. -/
def precedes (a b : Edit × Nat) : Bool :=
  a.1.start < b.1.start || (a.1.start == b.1.start && b.2 ≤ a.2)

/-- The edits from the front of the text to its back. -/
def forward (edits : List Edit) : List Edit :=
  (edits.zipIdx.mergeSort precedes).map Prod.fst

/-- The text from an offset on with the spans of the edits replaced, the edits being given from the
front. Every piece that is kept must be a slice of the text. -/
def weave? (content : Text) : Nat → List Edit → Option Text
  | offset, [] => content.slice? offset content.byteSize
  | offset, edit :: edits => do
      let kept ← content.slice? offset edit.start
      let rest ← weave? content edit.stop edits
      return kept ++ (edit.newText ++ rest)

theorem precedes_iff {a b : Edit × Nat} :
    precedes a b = true ↔ a.1.start < b.1.start ∨ (a.1.start = b.1.start ∧ b.2 ≤ a.2) := by
  simp [precedes]

theorem eq_of_mem_zipIdx {edits : List Edit} {a b : Edit × Nat} (ha : a ∈ edits.zipIdx)
    (hb : b ∈ edits.zipIdx) (h : a.2 = b.2) : a = b := by
  obtain ⟨edit, place⟩ := a
  obtain ⟨edit', place'⟩ := b
  obtain rfl : place = place' := h
  have hget := List.mem_zipIdx_iff_getElem?.mp ha
  have hget' := List.mem_zipIdx_iff_getElem?.mp hb
  rw [hget] at hget'
  exact congrArg (·, place) (Option.some.inj hget')

theorem exists_placed (edits : List Edit) :
    ∃ placed : List (Edit × Nat), placed.Perm edits.zipIdx ∧
      (placed.Pairwise fun a b => precedes b a = true) ∧ placed.map Prod.fst = backward edits := by
  refine ⟨edits.zipIdx.mergeSort (List.zipIdxLE fun a b => b.start ≤ a.start),
    List.mergeSort_perm _ _, ?_, List.mergeSort_zipIdx⟩
  have hsorted : (edits.zipIdx.mergeSort (List.zipIdxLE fun a b => b.start ≤ a.start)).Pairwise
      fun a b => List.zipIdxLE (fun a b : Edit => decide (b.start ≤ a.start)) a b = true := by
    apply List.pairwise_mergeSort
    · exact List.zipIdxLE_trans startsBehind_trans
    · exact List.zipIdxLE_total startsBehind_total
  refine hsorted.imp ?_
  intro a b hle
  rw [precedes_iff]
  simp only [List.zipIdxLE, decide_eq_true_eq, Bool.if_false_right, Bool.if_true_right,
    Bool.and_eq_true, Bool.or_eq_true, Bool.not_eq_true', decide_eq_false_iff_not] at hle
  omega

theorem pairwise_mergeSort_precedes (edits : List Edit) :
    (edits.zipIdx.mergeSort precedes).Pairwise fun a b => precedes a b = true := by
  apply List.pairwise_mergeSort
  · intro a b c hab hbc
    rw [precedes_iff] at hab hbc ⊢
    omega
  · intro a b
    rw [Bool.or_eq_true, precedes_iff, precedes_iff]
    omega

theorem forward_eq_reverse (edits : List Edit) : forward edits = (backward edits).reverse := by
  obtain ⟨placed, hperm, hbackward, hmap⟩ := exists_placed edits
  have hforward := pairwise_mergeSort_precedes edits
  have hreverse : edits.zipIdx.mergeSort precedes = placed.reverse := by
    have hsame : (edits.zipIdx.mergeSort precedes).Perm placed.reverse :=
      (List.mergeSort_perm _ _).trans (hperm.symm.trans (List.reverse_perm _).symm)
    refine List.Perm.eq_of_pairwise ?_ hforward (List.pairwise_reverse.mpr hbackward) hsame
    intro a b ha hb hab hba
    rw [precedes_iff] at hab hba
    refine eq_of_mem_zipIdx ((List.mergeSort_perm _ _).mem_iff.mp ha)
      (hperm.mem_iff.mp (List.mem_reverse.mp hb)) ?_
    omega
  rw [forward, hreverse, List.map_reverse, hmap]

theorem weave?_of_slice? {content kept rest : Text} {start offset : Nat} {edits : List Edit}
    (hkept : content.slice? start offset = some kept)
    (hrest : weave? content offset edits = some rest) :
    weave? content start edits = some (kept ++ rest) := by
  cases edits with
  | nil => exact Text.slice?_append hkept hrest
  | cons edit edits =>
      simp only [weave?, Option.bind_eq_bind, Option.bind_eq_some_iff] at hrest ⊢
      obtain ⟨part, hpart, tail, htail, hrest⟩ := hrest
      obtain rfl := Option.some.inj hrest
      exact ⟨kept ++ part, Text.slice?_append hkept hpart, tail, htail, by simp⟩

theorem splice_append {before found after : Text} {edit : Edit}
    (hstart : before.byteSize = edit.start) (hstop : (before ++ found).byteSize = edit.stop) :
    splice (before ++ (found ++ after)) edit = before ++ (edit.newText ++ after) := by
  have hsize : edit.stop - edit.start = found.byteSize := by
    rw [← hstart, ← hstop, Text.byteSize_append]
    omega
  simp only [splice, hsize]
  rw [← hstart, Text.splitFrom_byteSize_append]
  simp only [Text.splitFrom_byteSize_append, List.append_assoc]

/-- Splicing from the back, while the text before an offset is still untouched: the edits to come
end before that offset, and behind it stands what the pass makes of the edits done. -/
theorem weave?_foldl_splice {content before after rest : Text} {edits done : List Edit}
    (hcontent : content = before ++ after)
    (hslice : ∀ edit ∈ edits, ∃ found, content.slice? edit.start edit.stop = some found)
    (happart : edits.Pairwise fun a b => b.stop ≤ a.start)
    (hbefore : ∀ edit ∈ edits, edit.stop ≤ before.byteSize)
    (hdone : weave? content before.byteSize done = some rest) :
    weave? content 0 (edits.reverse ++ done) = some (edits.foldl splice (before ++ rest)) := by
  induction edits generalizing before after rest done with
  | nil =>
      have hkept : content.slice? 0 before.byteSize = some before :=
        Text.slice?_eq_some_iff.mpr ⟨[], after, by simpa using hcontent, rfl, rfl⟩
      exact weave?_of_slice? hkept hdone
  | cons edit edits ih =>
      obtain ⟨hlater, hedits⟩ := List.pairwise_cons.mp happart
      obtain ⟨found, hfound⟩ := hslice edit List.mem_cons_self
      obtain ⟨u, v, hsplit, hstart, hstop⟩ := Text.slice?_eq_some_iff.mp hfound
      -- The span of the edit lies in the untouched part; `between` is what that part has behind it.
      obtain ⟨between, hbetween⟩ : u ++ found <+: before := by
        refine Text.prefix_of_byteSize_le ⟨v, by simp [hsplit]⟩ ⟨after, hcontent.symm⟩ ?_
        rw [hstop]
        exact hbefore edit List.mem_cons_self
      replace hbetween : before = u ++ (found ++ between) := by rw [← hbetween, List.append_assoc]
      have hkept : content.slice? edit.stop before.byteSize = some between :=
        Text.slice?_eq_some_iff.mpr ⟨u ++ found, after, by simp [hcontent, hbetween], hstop,
          by simp [hbetween]⟩
      have hnext : weave? content u.byteSize (edit :: done) =
          some (edit.newText ++ (between ++ rest)) := by
        have hself : content.slice? u.byteSize edit.start = some [] := by
          rw [hstart]
          exact Text.slice?_self (Text.isBoundary_iff.mpr ⟨u, _, hsplit, hstart⟩)
        simp [weave?, hself, weave?_of_slice? hkept hdone]
      have hresult := ih hsplit
        (fun other hother => hslice other (List.mem_cons_of_mem _ hother)) hedits
        (fun other hother => hstart ▸ hlater other hother) hnext
      rw [List.reverse_cons, List.append_assoc, List.singleton_append, hresult, List.foldl_cons,
        hbetween, List.append_assoc, List.append_assoc, splice_append hstart hstop]

theorem apart_of_overlap? {edits : List Edit} (h : overlap? edits = none)
    (hle : ∀ edit ∈ edits, edit.start ≤ edit.stop) :
    edits.Pairwise fun a b => b.stop ≤ a.start := by
  induction edits with
  | nil => exact .nil
  | cons later edits ih =>
      cases edits with
      | nil => exact List.pairwise_singleton _ _
      | cons earlier edits =>
          rw [overlap?] at h
          split at h
          · cases h
          · have hrest := ih h fun edit hedit => hle edit (List.mem_cons_of_mem _ hedit)
            refine List.pairwise_cons.mpr ⟨?_, hrest⟩
            intro other hother
            have hearlier := hle earlier (by simp)
            rcases List.mem_cons.mp hother with rfl | hother
            · omega
            · have hstop := (List.pairwise_cons.mp hrest).1 other hother
              omega

theorem exists_slice?_of_current {edit : Edit} {content found : Text}
    (h : edit.current content = .ok found) : content.slice? edit.start edit.stop = some found := by
  rw [current] at h
  split at h
  next => cases h
  next slice hslice =>
    split at h
    · rw [hslice, Except.ok.inj h]
    · cases h

theorem applyAll_eq_ok_iff {content out : Text} {edits : List Edit} {results : List EditResult} :
    applyAll content edits = .ok (out, results) ↔
      checkAll content (backward edits) = .ok () ∧
        (backward edits).foldl splice content = out ∧ edits.map (·.result content) = results := by
  rw [applyAll]
  cases checkAll content (backward edits) with
  | error error => simp [bind, Except.bind]
  | ok _ => simp [bind, Except.bind, pure, Except.pure]

theorem exists_slice?_of_applyAll {content out : Text} {edits : List Edit}
    {results : List EditResult} (h : applyAll content edits = .ok (out, results)) :
    ∀ edit ∈ backward edits, ∃ found, content.slice? edit.start edit.stop = some found := by
  intro edit hedit
  obtain ⟨hcurrent, -⟩ := checkAll_eq_ok_iff.mp (applyAll_eq_ok_iff.mp h).1
  obtain ⟨found, hfound⟩ := hcurrent edit hedit
  exact ⟨found, exists_slice?_of_current hfound⟩

theorem weave?_forward {content out : Text} {edits : List Edit} {results : List EditResult}
    (h : applyAll content edits = .ok (out, results)) :
    weave? content 0 (forward edits) = some out := by
  have hslice := exists_slice?_of_applyAll h
  obtain ⟨hcheck, rfl, -⟩ := applyAll_eq_ok_iff.mp h
  obtain ⟨-, hoverlap⟩ := checkAll_eq_ok_iff.mp hcheck
  have hle : ∀ edit ∈ backward edits, edit.start ≤ edit.stop := by
    intro edit hedit
    obtain ⟨found, hfound⟩ := hslice edit hedit
    exact Text.le_of_slice? hfound
  have hstop : ∀ edit ∈ backward edits, edit.stop ≤ content.byteSize := by
    intro edit hedit
    obtain ⟨found, hfound⟩ := hslice edit hedit
    obtain ⟨u, v, hcontent, -, hsize⟩ := Text.slice?_eq_some_iff.mp hfound
    rw [← hsize, hcontent, ← List.append_assoc, Text.byteSize_append (u ++ found)]
    omega
  have hend : weave? content content.byteSize [] = some [] :=
    Text.slice?_self (Text.isBoundary_iff.mpr ⟨content, [], by simp, rfl⟩)
  have hweave := weave?_foldl_splice (List.append_nil content).symm hslice
    (apart_of_overlap? hoverlap hle) hstop hend
  rwa [List.append_nil, List.append_nil, ← forward_eq_reverse] at hweave

/-- When edits can be applied, the new text is the one of a single pass from the front: the pieces
of the old text between the spans, and the new texts in the places of the spans. There is one result
for each edit, in the order of the list, and it tells whether the span held the new text before. -/
theorem weave?_of_applyAll {content out : Text} {edits : List Edit} {results : List EditResult}
    (h : applyAll content edits = .ok (out, results)) :
    weave? content 0 (forward edits) = some out ∧ results.length = edits.length ∧
      ∀ (i : Nat) (edit : Edit), edits[i]? = some edit →
        ∃ found, content.slice? edit.start edit.stop = some found ∧
          results[i]? = some (if found = edit.newText then .alreadyApplied edit.file
            else .applied edit.file edit.newText.byteSize) := by
  obtain ⟨-, -, rfl⟩ := applyAll_eq_ok_iff.mp h
  refine ⟨weave?_forward h, List.length_map _, ?_⟩
  intro i edit hedit
  obtain ⟨found, hfound⟩ := exists_slice?_of_applyAll h edit
    ((backward_perm edits).mem_iff.mpr (List.mem_of_getElem? hedit))
  refine ⟨found, hfound, ?_⟩
  simp [hedit, result, hfound]

/-- A replacement, an insertion at the byte where it starts, a span that holds its new text, and an
edit that comes first in the text and last in the list. -/
def mixedEdits : List Edit :=
  [replacing ⟨"A.java".toList⟩ 3 4 "-".toList " ".toList,
    replacing ⟨"A.java".toList⟩ 3 3 "X".toList [],
    replacing ⟨"A.java".toList⟩ 4 5 "b".toList "c".toList,
    replacing ⟨"A.java".toList⟩ 0 1 "A".toList "a".toList]

theorem weave?_mixedEdits :
    applyAll "aé b".toList mixedEdits =
        .ok ("AéX-b".toList, [.applied ⟨"A.java".toList⟩ 1, .applied ⟨"A.java".toList⟩ 1,
          .alreadyApplied ⟨"A.java".toList⟩, .applied ⟨"A.java".toList⟩ 1]) ∧
      (forward mixedEdits).map Edit.newText = ["A", "X", "-", "b"].map String.toList ∧
      weave? "aé b".toList 0 (forward mixedEdits) = some "AéX-b".toList := by
  have hbackward : backward mixedEdits =
      [mixedEdits[2], mixedEdits[0], mixedEdits[1], mixedEdits[3]] := by
    simp [backward, mixedEdits, replacing, List.mergeSort]
  have happly : applyAll "aé b".toList mixedEdits =
      .ok ("AéX-b".toList, [.applied ⟨"A.java".toList⟩ 1, .applied ⟨"A.java".toList⟩ 1,
        .alreadyApplied ⟨"A.java".toList⟩, .applied ⟨"A.java".toList⟩ 1]) := by
    rw [applyAll, hbackward]
    decide +kernel
  have hforward : (forward mixedEdits).map Edit.newText =
      ["A", "X", "-", "b"].map String.toList := by
    rw [forward_eq_reverse, hbackward]
    decide
  exact ⟨happly, hforward, (weave?_of_applyAll happly).1⟩

end LogTemplate.Edit
