import LogTemplate.Proofs.Edit.Acceptance

/-!
Whether the order of a list of edits decides about it. Edits that start at the same byte are
compared in the order of the list, so that only the first of them may replace bytes and the others
have to insert. Nothing else that is asked of the edits depends on their order.
-/

namespace LogTemplate.Edit

variable {a b : Edit} {edits : List Edit} {content : Text}

def Accepted (content : Text) (edits : List Edit) : Prop :=
  ∃ out results, applyAll content edits = .ok (out, results)

/-- The edit puts its text between two bytes and replaces none. -/
def Inserts (edit : Edit) : Prop :=
  edit.start = edit.stop

instance (edit : Edit) : Decidable edit.Inserts :=
  inferInstanceAs (Decidable (edit.start = edit.stop))

/-- The second of two edits in a list gives way to the first one at the same byte. -/
def Yields (a b : Edit) : Prop :=
  a.start = b.start → b.Inserts

theorem filter_backward (edits : List Edit) (start : Nat) :
    (backward edits).filter (·.start = start) = edits.filter (·.start = start) := by
  have hsorted : (edits.filter (·.start = start)).Pairwise fun a b =>
      decide (b.start ≤ a.start) = true := by
    apply List.pairwise_of_forall_mem_list
    intro a ha b hb
    have hstart := List.of_mem_filter ha
    have hstart' := List.of_mem_filter hb
    rw [decide_eq_true_eq] at hstart hstart' ⊢
    omega
  have hsublist : (edits.filter (·.start = start)).Sublist (backward edits) :=
    List.sublist_mergeSort startsBehind_trans startsBehind_total hsorted List.filter_sublist
  have hfilter := hsublist.filter (·.start = start)
  rw [List.filter_filter] at hfilter
  simp only [Bool.and_self] at hfilter
  exact (hfilter.eq_of_length ((backward_perm edits).filter _).length_eq.symm).symm

theorem pair_sublist_backward (h : a.start = b.start) :
    [a, b].Sublist (backward edits) ↔ [a, b].Sublist edits := by
  have hfilter : ∀ {list : List Edit},
      [a, b].Sublist list ↔ [a, b].Sublist (list.filter (·.start = a.start)) := by
    intro list
    constructor
    · intro hlist
      simpa [h] using hlist.filter (·.start = a.start)
    · exact fun hlist => hlist.trans List.filter_sublist
  rw [hfilter, filter_backward, ← hfilter]

/-- Sorted edits follow each other exactly when the edits are apart and those at the same byte
give way to the first one. -/
theorem pairwise_backward_iff (hle : ∀ edit ∈ edits, edit.start ≤ edit.stop) :
    ((backward edits).Pairwise fun a b => b.stop ≤ a.start) ↔
      edits.Pairwise Apart ∧ edits.Pairwise Yields := by
  rw [← (backward_perm edits).pairwise_iff Apart.symm]
  simp only [List.pairwise_iff_forall_sublist]
  constructor
  · intro h
    refine ⟨fun hsublist => .inr (h hsublist), ?_⟩
    intro a b hsublist hstart
    have hstop := h ((pair_sublist_backward hstart).mpr hsublist)
    have hb := hle b (hsublist.subset (by simp))
    rw [Inserts]
    omega
  · rintro ⟨hapart, hyields⟩ a b hsublist
    have ha := hle a ((backward_perm edits).mem_iff.mp (hsublist.subset (by simp)))
    have hsorted := List.pairwise_iff_forall_sublist.mp (backward_pairwise edits) hsublist
    rcases hapart hsublist with hstop | hstop
    · -- The first edit would stop before the second one starts: both start at the same byte.
      have hstart : a.start = b.start := by omega
      have hinserts := hyields ((pair_sublist_backward hstart).mp hsublist) hstart
      rw [Inserts] at hinserts
      omega
    · exact hstop

theorem accepted_iff :
    Accepted content edits ↔
      (∀ edit ∈ edits, edit.Applicable content) ∧ edits.Pairwise Apart ∧ edits.Pairwise Yields := by
  rw [Accepted, exists_applyAll_iff]
  refine and_congr_right fun happlicable => ?_
  have hle : ∀ edit ∈ edits, edit.start ≤ edit.stop :=
    fun edit hedit => (happlicable edit hedit).inRange.1
  rw [← pairwise_backward_iff hle]
  have hle' : ∀ edit ∈ backward edits, edit.start ≤ edit.stop :=
    fun edit hedit => hle edit ((backward_perm edits).mem_iff.mp hedit)
  exact ⟨fun h => apart_of_overlap? h hle', overlap?_eq_none⟩

section Order

variable (happlicable : ∀ edit ∈ edits, edit.Applicable content) (hapart : edits.Pairwise Apart)

include happlicable

theorem not_apart_of_replaces (ha : a ∈ edits) (hb : b ∈ edits) (hstart : a.start = b.start)
    (hreplaces : ¬a.Inserts) (hreplaces' : ¬b.Inserts) : ¬Apart a b := by
  have hle := (happlicable a ha).inRange.1
  have hle' := (happlicable b hb).inRange.1
  rw [Inserts] at hreplaces hreplaces'
  rw [Apart]
  omega

include hapart

theorem exists_perm_accepted : ∃ edits', edits'.Perm edits ∧ Accepted content edits' := by
  let replacements := edits.filter fun edit => !decide edit.Inserts
  let insertions := edits.filter fun edit => decide edit.Inserts
  have hperm : (replacements ++ insertions).Perm edits :=
    List.perm_append_comm.trans (List.filter_append_perm _ edits)
  have hapart' : (replacements ++ insertions).Pairwise Apart :=
    (hperm.pairwise_iff Apart.symm).mpr hapart
  have hinserts : ∀ b ∈ insertions, b.Inserts :=
    fun b hb => of_decide_eq_true (List.mem_filter.mp hb).2
  refine ⟨replacements ++ insertions, hperm, accepted_iff.mpr ⟨?_, hapart', ?_⟩⟩
  · exact fun edit hedit => happlicable edit (hperm.mem_iff.mp hedit)
  · refine List.pairwise_append.mpr ⟨?_, ?_, fun a _ b hb _ => hinserts b hb⟩
    · refine (List.pairwise_append.mp hapart').1.imp_of_mem ?_
      intro a b ha hb h hstart
      obtain ⟨ha, hreplaces⟩ := List.mem_filter.mp ha
      obtain ⟨hb, hreplaces'⟩ := List.mem_filter.mp hb
      rw [Bool.not_eq_true', decide_eq_false_iff_not] at hreplaces hreplaces'
      exact absurd h (not_apart_of_replaces happlicable ha hb hstart hreplaces hreplaces')
    · exact List.pairwise_of_forall_mem_list fun a _ b hb _ => hinserts b hb

end Order

theorem exists_perm_not_accepted (content : Text) (ha : a ∈ edits) (hb : b ∈ edits)
    (hstart : a.start = b.start) (hinserts : a.Inserts) (hreplaces : ¬b.Inserts) :
    ∃ edits', edits'.Perm edits ∧ ¬Accepted content edits' := by
  have hne : b ≠ a := by
    rintro rfl
    exact hreplaces hinserts
  have hb' : b ∈ edits.erase a := (List.mem_erase_of_ne hne).mpr hb
  refine ⟨a :: b :: (edits.erase a).erase b, ?_, ?_⟩
  · exact ((List.perm_cons_erase hb').symm.cons a).trans (List.perm_cons_erase ha).symm
  · intro haccepted
    obtain ⟨-, -, hyields⟩ := accepted_iff.mp haccepted
    exact hreplaces ((List.pairwise_cons.mp hyields).1 b List.mem_cons_self hstart)

/-- Every order of the edits is accepted or none is, unless nothing else is wrong with them and an
insertion stands at the byte where a replacement starts. -/
theorem accepted_in_any_order_iff (content : Text) (edits : List Edit) :
    (∀ edits' : List Edit, edits'.Perm edits →
        (Accepted content edits' ↔ Accepted content edits)) ↔
      ¬((∀ edit ∈ edits, edit.Applicable content) ∧ edits.Pairwise Apart ∧
        ∃ a ∈ edits, ∃ b ∈ edits, a.start = b.start ∧ a.Inserts ∧ ¬b.Inserts) := by
  constructor
  · rintro h ⟨happlicable, hapart, a, ha, b, hb, hstart, hinserts, hreplaces⟩
    obtain ⟨good, hgood, haccepted⟩ := exists_perm_accepted happlicable hapart
    obtain ⟨bad, hbad, hrefused⟩ :=
      exists_perm_not_accepted content ha hb hstart hinserts hreplaces
    exact hrefused ((h bad hbad).mpr ((h good hgood).mp haccepted))
  · intro h edits' hperm
    rw [accepted_iff, accepted_iff, hperm.pairwise_iff Apart.symm]
    simp only [hperm.mem_iff]
    refine and_congr_right fun happlicable => and_congr_right fun hapart => ?_
    have hyields : ∀ list : List Edit, list.Perm edits → list.Pairwise Yields := by
      intro list hlist
      refine ((hlist.pairwise_iff Apart.symm).mpr hapart).imp_of_mem ?_
      intro a b ha hb hab hstart
      by_contra hreplaces
      have ha := hlist.mem_iff.mp ha
      have hb := hlist.mem_iff.mp hb
      by_cases hinserts : a.Inserts
      · exact h ⟨happlicable, hapart, a, ha, b, hb, hstart, hinserts, hreplaces⟩
      · exact not_apart_of_replaces happlicable ha hb hstart hinserts hreplaces hab
    exact iff_of_true (hyields edits' hperm) (hyields edits (List.Perm.refl edits))

/-- An insertion, and behind it in the list a replacement at the same byte. -/
def insertionFirst : List Edit :=
  [replacing ⟨"A.java".toList⟩ 3 3 "X".toList [],
    replacing ⟨"A.java".toList⟩ 3 4 "-".toList " ".toList]

theorem insertionFirst_depends_on_order :
    applyAll "aé b".toList insertionFirst = .error (.overlapping ⟨"A.java".toList⟩ 3 4) ∧
      ∃ edits' : List Edit, edits'.Perm insertionFirst ∧ Accepted "aé b".toList edits' := by
  have hbackward : backward insertionFirst = insertionFirst := by
    simp [backward, insertionFirst, replacing, List.mergeSort]
  have hrefused : applyAll "aé b".toList insertionFirst =
      .error (.overlapping ⟨"A.java".toList⟩ 3 4) := by
    rw [applyAll, hbackward]
    decide +kernel
  have happlicable : ∀ edit ∈ insertionFirst, edit.Applicable "aé b".toList := by
    simp only [insertionFirst, List.forall_mem_cons]
    exact ⟨exists_current_iff.mp ⟨[], by decide⟩, exists_current_iff.mp ⟨" ".toList, by decide⟩,
      List.forall_mem_nil _⟩
  have hmeet : ∃ a ∈ insertionFirst, ∃ b ∈ insertionFirst,
      a.start = b.start ∧ a.Inserts ∧ ¬b.Inserts :=
    ⟨insertionFirst[0], by simp [insertionFirst], insertionFirst[1], by simp [insertionFirst],
      by decide⟩
  have hdepends := (accepted_in_any_order_iff "aé b".toList insertionFirst).not_left.mpr
    ⟨happlicable, by simp [insertionFirst, replacing, Apart], hmeet⟩
  refine ⟨hrefused, ?_⟩
  by_contra hnone
  refine hdepends fun edits' hperm => iff_of_false (fun h => hnone ⟨edits', hperm, h⟩) ?_
  rintro ⟨out, results, h⟩
  rw [hrefused] at h
  cases h

end LogTemplate.Edit
