import LogTemplate.Proofs.Edit.Weave
import Mathlib.Algebra.BigOperators.Group.List.Basic
import Mathlib.Algebra.Ring.Int.Defs

namespace LogTemplate.Edit

/-- By how many bytes the edit makes a text longer. -/
def growth (edit : Edit) : Int :=
  edit.newText.byteSize - ((edit.stop : Int) - edit.start)

/-- The edits that come before one of them in the text, with their places in the list. -/
def ahead (edits : List Edit) (placed : Edit × Nat) : List (Edit × Nat) :=
  edits.zipIdx.filter fun other => other.2 ≠ placed.2 && precedes other placed

/-- Where the new text of an edit starts when all edits of the list are applied. -/
def landing (edits : List Edit) (placed : Edit × Nat) : Nat :=
  (placed.1.start + ((ahead edits placed).map (·.1.growth)).sum).toNat

def movedTo (edit : Edit) (start : Nat) : Edit :=
  { edit with start, stop := start + edit.newText.byteSize }

/-- The edits of a list, moved to where their new texts lie when all of them are applied. -/
def moved (edits : List Edit) : List Edit :=
  edits.zipIdx.map fun placed => placed.1.movedTo (landing edits placed)

variable {content out : Text} {edits : List Edit} {results : List EditResult}

section Holds

theorem splice_of_holds {edit : Edit}
    (h : content.slice? edit.start edit.stop = some edit.newText) :
    splice content edit = content := by
  obtain ⟨u, v, rfl, hstart, hstop⟩ := Text.slice?_eq_some_iff.mp h
  exact splice_append hstart hstop

theorem foldl_splice_of_holds
    (h : ∀ edit ∈ edits, content.slice? edit.start edit.stop = some edit.newText) :
    edits.foldl splice content = content := by
  induction edits with
  | nil => rfl
  | cons edit edits ih =>
      rw [List.forall_mem_cons] at h
      rw [List.foldl_cons, splice_of_holds h.1, ih h.2]

theorem applyAll_of_holds
    (h : ∀ edit ∈ edits, content.slice? edit.start edit.stop = some edit.newText)
    (hapart : edits.Pairwise Apart) (hne : edits.Pairwise fun a b => a.start ≠ b.start) :
    applyAll content edits = .ok (content, edits.map fun edit => .alreadyApplied edit.file) := by
  have hbackward : ∀ edit ∈ backward edits,
      content.slice? edit.start edit.stop = some edit.newText :=
    fun edit hedit => h edit ((backward_perm edits).mem_iff.mp hedit)
  have hcheck : checkAll content (backward edits) = .ok () := by
    refine checkAll_eq_ok_iff.mpr ⟨?_, overlap?_eq_none (backward_apart ?_ hapart hne)⟩
    · intro edit hedit
      exact ⟨edit.newText, by simp [current, hbackward edit hedit]⟩
    · exact fun edit hedit => Text.le_of_slice? (h edit hedit)
  refine applyAll_eq_ok_iff.mpr ⟨hcheck, foldl_splice_of_holds hbackward, ?_⟩
  exact List.map_congr_left fun edit hedit => if_pos (h edit hedit)

end Holds

/-- A pass over a list of edits goes on behind each of them, and puts its new text where the edit
started, shifted by what the edits before it have added. -/
theorem exists_of_weave?_append {offset : Nat} {before after : List Edit} {edit : Edit}
    (h : weave? content offset (before ++ edit :: after) = some out) :
    ∃ u v, out = u ++ (edit.newText ++ v) ∧
      (u.byteSize : Int) = edit.start - offset + (before.map growth).sum ∧
      weave? content edit.stop after = some v := by
  induction before generalizing offset out with
  | nil =>
      simp only [List.nil_append, weave?, Option.bind_eq_bind, Option.bind_eq_some_iff] at h
      obtain ⟨kept, hkept, rest, hrest, hout⟩ := h
      refine ⟨kept, rest, (Option.some.inj hout).symm, ?_, hrest⟩
      have hsize := Text.byteSize_of_slice? hkept
      simp only [List.map_nil, List.sum_nil]
      omega
  | cons first before ih =>
      simp only [List.cons_append, weave?, Option.bind_eq_bind, Option.bind_eq_some_iff] at h
      obtain ⟨kept, hkept, rest, hrest, hout⟩ := h
      obtain ⟨u, v, rfl, hu, hv⟩ := ih hrest
      refine ⟨kept ++ (first.newText ++ u), v, ?_, ?_, hv⟩
      · rw [← Option.some.inj hout]
        simp
      · have hsize := Text.byteSize_of_slice? hkept
        simp only [Text.byteSize_append, List.map_cons, List.sum_cons, growth]
        omega

theorem pairwise_precedes_ne (edits : List Edit) :
    (edits.zipIdx.mergeSort precedes).Pairwise fun a b => precedes a b = true ∧ a.2 ≠ b.2 := by
  have hne : (edits.zipIdx.mergeSort precedes).Pairwise fun a b => a.2 ≠ b.2 := by
    have hnodup : (edits.zipIdx.map Prod.snd).Nodup := by
      rw [List.zipIdx_map_snd]
      exact List.nodup_range'
    rw [(List.mergeSort_perm _ _).pairwise_iff Ne.symm]
    exact List.pairwise_map.mp hnodup
  exact List.pairwise_and_iff.mpr ⟨pairwise_mergeSort_precedes edits, hne⟩

section Landing

variable {before after : List (Edit × Nat)} {placed : Edit × Nat}
  (hsorted : edits.zipIdx.mergeSort precedes = before ++ placed :: after)

include hsorted

theorem ahead_perm : (ahead edits placed).Perm before := by
  have hpairwise := pairwise_precedes_ne edits
  rw [hsorted, List.pairwise_append, List.pairwise_cons] at hpairwise
  obtain ⟨-, ⟨hafter, -⟩, hbefore⟩ := hpairwise
  have hperm : (ahead edits placed).Perm ((before ++ placed :: after).filter fun other =>
      other.2 ≠ placed.2 && precedes other placed) := by
    rw [← hsorted]
    exact ((List.mergeSort_perm _ _).filter _).symm
  have hfilter : (before ++ placed :: after).filter (fun other =>
      other.2 ≠ placed.2 && precedes other placed) = before := by
    rw [List.filter_append, List.filter_eq_self.mpr, List.filter_eq_nil_iff.mpr, List.append_nil]
    · intro other hother
      rw [Bool.and_eq_true, decide_eq_true_eq]
      rintro ⟨hne, hprecedes⟩
      rcases List.mem_cons.mp hother with rfl | hother
      · exact hne rfl
      · obtain ⟨hprecedes', hne'⟩ := hafter other hother
        rw [precedes_iff] at hprecedes hprecedes'
        omega
    · intro other hother
      obtain ⟨hprecedes, hne⟩ := hbefore other hother placed List.mem_cons_self
      rw [Bool.and_eq_true, decide_eq_true_eq]
      exact ⟨hne, hprecedes⟩
  rwa [hfilter] at hperm

theorem exists_landing (h : applyAll content edits = .ok (out, results)) :
    ∃ u v, out = u ++ (placed.1.newText ++ v) ∧ u.byteSize = landing edits placed ∧
      weave? content placed.1.stop (after.map Prod.fst) = some v := by
  have hweave := weave?_forward h
  rw [forward, hsorted, List.map_append, List.map_cons] at hweave
  obtain ⟨u, v, hout, hu, hv⟩ := exists_of_weave?_append hweave
  refine ⟨u, v, hout, ?_, hv⟩
  have hsum : ((ahead edits placed).map (·.1.growth)).sum =
      ((before.map Prod.fst).map growth).sum := by
    rw [List.map_map]
    exact ((ahead_perm hsorted).map _).sum_eq
  rw [landing, hsum]
  omega

end Landing

section Moved

variable (h : applyAll content edits = .ok (out, results))

include h

theorem landing_add_le {before between after : List (Edit × Nat)} {a b : Edit × Nat}
    (hsorted : edits.zipIdx.mergeSort precedes = before ++ a :: (between ++ b :: after)) :
    landing edits a + a.1.newText.byteSize ≤ landing edits b := by
  have hsorted' : edits.zipIdx.mergeSort precedes = (before ++ a :: between) ++ b :: after := by
    simp [hsorted]
  obtain ⟨u, v, hout, hu, hv⟩ := exists_landing hsorted h
  obtain ⟨u', v', hout', hu', hv'⟩ := exists_landing hsorted' h
  rw [List.map_append, List.map_cons] at hv
  obtain ⟨gap, rest, rfl, -, hrest⟩ := exists_of_weave?_append hv
  obtain rfl : rest = v' := Option.some.inj (hrest.symm.trans hv')
  have hsize := congrArg Text.byteSize (hout.symm.trans hout')
  simp only [Text.byteSize_append] at hsize
  omega

theorem slice?_moved :
    ∀ edit ∈ moved edits, out.slice? edit.start edit.stop = some edit.newText := by
  refine List.forall_mem_map.mpr ?_
  intro placed hplaced
  obtain ⟨before, after, hsorted⟩ :=
    List.append_of_mem ((List.mergeSort_perm _ precedes).mem_iff.mpr hplaced)
  obtain ⟨u, v, hout, hu, -⟩ := exists_landing hsorted h
  refine Text.slice?_eq_some_iff.mpr ⟨u, v, hout, hu, ?_⟩
  rw [Text.byteSize_append, hu]
  rfl

theorem moved_apart : (moved edits).Pairwise Apart := by
  have hsymm : ∀ {a b : Edit × Nat},
      Apart (a.1.movedTo (landing edits a)) (b.1.movedTo (landing edits b)) →
        Apart (b.1.movedTo (landing edits b)) (a.1.movedTo (landing edits a)) := Or.symm
  rw [moved, List.pairwise_map, ← (List.mergeSort_perm _ precedes).pairwise_iff hsymm]
  apply List.pairwise_iff_forall_sublist.mpr
  intro a b hsublist
  obtain ⟨front, back, hsorted, ha, hb⟩ := List.cons_sublist_iff.mp hsublist
  obtain ⟨before, between, rfl⟩ := List.append_of_mem ha
  obtain ⟨between', after, rfl⟩ := List.append_of_mem (List.singleton_sublist.mp hb)
  have hsplit : edits.zipIdx.mergeSort precedes =
      before ++ a :: ((between ++ between') ++ b :: after) := by
    simp [hsorted]
  exact .inl (landing_add_le h hsplit)

end Moved

theorem map_moved {α : Type} (edits : List Edit) (f : Path → α) :
    (moved edits).map (fun edit => f edit.file) = edits.map fun edit => f edit.file := by
  have hfst : (moved edits).map (fun edit => f edit.file) =
      (edits.zipIdx.map Prod.fst).map fun edit => f edit.file := by
    rw [moved, List.map_map, List.map_map]
    rfl
  rw [hfst, List.zipIdx_map_fst]

/-- Edits with texts that are applied once more, each moved to where its text lies now, change
nothing: every one of them is found to be applied already, whatever it expects. -/
theorem applyAll_moved (h : applyAll content edits = .ok (out, results))
    (htext : ∀ edit ∈ edits, edit.newText ≠ []) :
    applyAll out (moved edits) = .ok (out, edits.map fun edit => .alreadyApplied edit.file) ∧
      ∀ expect : Edit → Expected,
        applyAll out ((moved edits).map fun edit => { edit with expected := expect edit }) =
          .ok (out, edits.map fun edit => .alreadyApplied edit.file) := by
  have hlt : ∀ edit ∈ moved edits, edit.start < edit.stop := by
    refine List.forall_mem_map.mpr ?_
    intro placed hplaced
    have hne := htext placed.1 (List.fst_mem_of_mem_zipIdx hplaced)
    have hpos : placed.1.newText.byteSize ≠ 0 := mt Text.byteSize_eq_zero_iff.mp hne
    simp only [movedTo]
    omega
  have hne : (moved edits).Pairwise fun a b => a.start ≠ b.start := by
    refine (moved_apart h).imp_of_mem ?_
    rintro a b ha hb (hstop | hstop)
    · have hspan := hlt a ha
      omega
    · have hspan := hlt b hb
      omega
  have hagain : ∀ expect : Edit → Expected,
      applyAll out ((moved edits).map fun edit => { edit with expected := expect edit }) =
        .ok (out, edits.map fun edit => .alreadyApplied edit.file) := by
    intro expect
    have hresults : ((moved edits).map fun edit => { edit with expected := expect edit }).map
        (fun edit => EditResult.alreadyApplied edit.file) =
          edits.map fun edit => .alreadyApplied edit.file := by
      rw [List.map_map]
      exact map_moved edits EditResult.alreadyApplied
    rw [← hresults]
    apply applyAll_of_holds
    · exact List.forall_mem_map.mpr (slice?_moved h)
    · exact List.pairwise_map.mpr (moved_apart h)
    · exact List.pairwise_map.mpr hne
  refine ⟨?_, hagain⟩
  simpa using hagain Edit.expected

/-- A replacement and an insertion at the byte where it starts, both of which make the text longer,
a span that holds its new text, and in front of them one that makes the text shorter. -/
def unevenEdits : List Edit :=
  [replacing ⟨"A.java".toList⟩ 3 4 "--".toList " ".toList,
    replacing ⟨"A.java".toList⟩ 3 3 "X".toList [],
    replacing ⟨"A.java".toList⟩ 4 5 "b".toList "c".toList,
    replacing ⟨"A.java".toList⟩ 0 3 "e".toList "aé".toList]

theorem applyAll_moved_unevenEdits :
    (moved unevenEdits).map (fun edit => (edit.start, edit.stop)) =
        [(2, 4), (1, 2), (4, 5), (0, 1)] ∧
      applyAll "eX--b".toList (moved unevenEdits) =
        .ok ("eX--b".toList, unevenEdits.map fun edit => .alreadyApplied edit.file) := by
  have hbackward : backward unevenEdits =
      [unevenEdits[2], unevenEdits[0], unevenEdits[1], unevenEdits[3]] := by
    simp [backward, unevenEdits, replacing, List.mergeSort]
  have happly : applyAll "aé b".toList unevenEdits =
      .ok ("eX--b".toList, [.applied ⟨"A.java".toList⟩ 2, .applied ⟨"A.java".toList⟩ 1,
        .alreadyApplied ⟨"A.java".toList⟩, .applied ⟨"A.java".toList⟩ 1]) := by
    rw [applyAll, hbackward]
    decide +kernel
  exact ⟨by decide, (applyAll_moved happly (by decide)).1⟩

end LogTemplate.Edit
