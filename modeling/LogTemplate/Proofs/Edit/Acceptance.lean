import LogTemplate.Proofs.Edit.Weave

/-!
Which lists of edits are applied, and what the others fail with. Each edit is looked at by itself
first, from the back of the text; only when nothing is wrong with any of them are neighbours
compared. So the error is that of the last edit in the text that cannot be applied, and comparing
neighbours is enough to keep all edits apart.
-/

namespace LogTemplate.Edit

variable {edit : Edit} {edits : List Edit} {content : Text} {error : EditError}

/-- The bytes of the edit exist in the text, and characters start at both ends or the text ends
there. -/
def InRange (edit : Edit) (content : Text) : Prop :=
  edit.start ≤ edit.stop ∧ edit.stop ≤ content.byteSize ∧ content.isBoundary edit.start = true ∧
    content.isBoundary edit.stop = true

instance (edit : Edit) (content : Text) : Decidable (edit.InRange content) :=
  inferInstanceAs (Decidable (_ ∧ _ ∧ _ ∧ _))

/-- Nothing is wrong with the edit by itself: its bytes hold the new text, or a text that it
expects. -/
structure Applicable (edit : Edit) (content : Text) : Prop where
  inRange : edit.InRange content
  holds : ∃ found, content.slice? edit.start edit.stop = some found ∧
    (found = edit.newText ∨ edit.expected.admits found = true)

/-- What is wrong with an edit by itself. -/
inductive Refused (edit : Edit) (content : Text) : EditError → Prop where
  | badRange (h : ¬edit.InRange content) :
      Refused edit content (.badRange edit.start edit.stop content.byteSize)
  | mismatch {found : Text} (hslice : content.slice? edit.start edit.stop = some found)
      (hnew : found ≠ edit.newText) (hexpected : edit.expected.admits found = false) :
      Refused edit content (.mismatch edit.file edit.start edit.stop found)

theorem inRange_iff :
    edit.InRange content ↔ ∃ found, content.slice? edit.start edit.stop = some found :=
  Text.exists_slice?_iff.symm

theorem current_cases (edit : Edit) (content : Text) :
    (edit.Applicable content ∧ ∃ found, edit.current content = .ok found) ∨
      (¬edit.Applicable content ∧ ∃ error, edit.Refused content error ∧
        edit.current content = .error error) := by
  rw [current]
  cases hslice : content.slice? edit.start edit.stop with
  | none =>
      have hrange : ¬edit.InRange content := by
        rw [inRange_iff, hslice]
        rintro ⟨found, hfound⟩
        cases hfound
      exact .inr ⟨fun h => hrange h.inRange, _, .badRange hrange, rfl⟩
  | some found =>
      by_cases hholds : found = edit.newText ∨ edit.expected.admits found = true
      · refine .inl ⟨⟨inRange_iff.mpr ⟨found, hslice⟩, found, hslice, hholds⟩, found, ?_⟩
        exact if_pos hholds
      · refine .inr ⟨?_, _, ?_, if_neg hholds⟩
        · rintro ⟨-, other, hother, h⟩
          obtain rfl : found = other := Option.some.inj (hslice.symm.trans hother)
          exact hholds h
        · rw [not_or, Bool.not_eq_true] at hholds
          exact .mismatch hslice hholds.1 hholds.2

theorem exists_current_iff :
    (∃ found, edit.current content = .ok found) ↔ edit.Applicable content := by
  rcases current_cases edit content with ⟨happlicable, hok⟩ | ⟨hnot, error, -, herror⟩
  · exact iff_of_true hok happlicable
  · refine iff_of_false ?_ hnot
    rintro ⟨found, hfound⟩
    rw [herror] at hfound
    cases hfound

theorem checkAll_eq_error {before after : List Edit}
    (hbefore : ∀ other ∈ before, other.Applicable content)
    (h : edit.current content = .error error) :
    checkAll content (before ++ edit :: after) = .error error := by
  have hforM : ((before ++ edit :: after).forM fun edit => discard (edit.current content)) =
      .error error := by
    induction before with
    | nil =>
        rw [List.nil_append, List.forM, h]
        rfl
    | cons other before ih =>
        obtain ⟨found, hfound⟩ := exists_current_iff.mpr (hbefore other List.mem_cons_self)
        rw [List.cons_append, List.forM, hfound]
        exact ih fun further hfurther => hbefore further (List.mem_cons_of_mem _ hfurther)
  rw [checkAll, hforM]
  rfl

theorem exists_applyAll_iff :
    (∃ out results, applyAll content edits = .ok (out, results)) ↔
      (∀ edit ∈ edits, edit.Applicable content) ∧ overlap? (backward edits) = none := by
  have hcheck : checkAll content (backward edits) = .ok () ↔
      (∀ edit ∈ edits, edit.Applicable content) ∧ overlap? (backward edits) = none := by
    rw [checkAll_eq_ok_iff]
    simp only [(backward_perm edits).mem_iff, exists_current_iff]
  rw [← hcheck]
  constructor
  · rintro ⟨out, results, h⟩
    exact (applyAll_eq_ok_iff.mp h).1
  · exact fun h => ⟨_, _, applyAll_eq_ok_iff.mpr ⟨h, rfl, rfl⟩⟩

/-- The edit at a place in the list decides about the error: it cannot be applied, and of those that
cannot be applied none starts behind it, and none that starts at the same byte comes before it. -/
structure Decides (edits : List Edit) (content : Text) (place : Nat) (edit : Edit) : Prop where
  getElem?_eq : edits[place]? = some edit
  not_applicable : ¬edit.Applicable content
  foremost : ∀ place' (other : Edit), edits[place']? = some other → ¬other.Applicable content →
    other.start < edit.start ∨ (other.start = edit.start ∧ place ≤ place')

theorem exists_decides (h : ∃ edit ∈ edits, ¬edit.Applicable content) :
    ∃ place edit before after, Decides edits content place edit ∧
      backward edits = before ++ edit :: after ∧ ∀ other ∈ before, other.Applicable content := by
  classical
  obtain ⟨placed, hperm, hsorted, hmap⟩ := exists_placed edits
  have hmem : ∀ (edit : Edit) place, (edit, place) ∈ placed ↔ edits[place]? = some edit := by
    intro edit place
    rw [hperm.mem_iff, List.mem_zipIdx_iff_getElem?]
  have hfails : (placed.find? fun entry => decide ¬entry.1.Applicable content).isSome = true := by
    obtain ⟨edit, hedit, hnot⟩ := h
    obtain ⟨place, hplace⟩ := List.mem_iff_getElem?.mp hedit
    exact List.find?_isSome.mpr ⟨(edit, place), (hmem edit place).mpr hplace, decide_eq_true hnot⟩
  obtain ⟨⟨edit, place⟩, hfind⟩ := Option.isSome_iff_exists.mp hfails
  obtain ⟨hnot, before, after, hsplit, hbefore⟩ := List.find?_eq_some_iff_append.mp hfind
  have happlicable : ∀ entry ∈ before, entry.1.Applicable content := by
    intro entry hentry
    simpa using hbefore entry hentry
  refine ⟨place, edit, before.map Prod.fst, after.map Prod.fst, ⟨?_, of_decide_eq_true hnot, ?_⟩,
    ?_, ?_⟩
  · exact (hmem edit place).mp (by simp [hsplit])
  · intro place' other hother hfailing
    have hentry := (hmem other place').mpr hother
    rw [hsplit, List.mem_append, List.mem_cons] at hentry
    rcases hentry with hentry | hentry | hentry
    · exact absurd (happlicable _ hentry) hfailing
    · obtain ⟨rfl, rfl⟩ := Prod.mk.inj hentry
      exact .inr ⟨rfl, le_rfl⟩
    · rw [hsplit, List.pairwise_append, List.pairwise_cons] at hsorted
      exact precedes_iff.mp (hsorted.2.1.1 _ hentry)
  · rw [← hmap, hsplit, List.map_append, List.map_cons]
  · intro other hother
    obtain ⟨entry, hentry, rfl⟩ := List.mem_map.mp hother
    exact happlicable entry hentry

/-- Edits that are applied are all applicable and apart from each other. Edits that are applicable,
apart, and start at different bytes are applied. If some edit is not applicable, then the error is
what is wrong with the one that decides, and never an overlap. -/
theorem applyAll_verdict (content : Text) (edits : List Edit) :
    (∀ out results, applyAll content edits = .ok (out, results) →
        (∀ edit ∈ edits, edit.Applicable content) ∧ edits.Pairwise Apart) ∧
      ((∀ edit ∈ edits, edit.Applicable content) → edits.Pairwise Apart →
        (edits.Pairwise fun a b => a.start ≠ b.start) →
        ∃ out results, applyAll content edits = .ok (out, results)) ∧
      ((∃ edit ∈ edits, ¬edit.Applicable content) →
        ∃ place edit error, Decides edits content place edit ∧ edit.Refused content error ∧
          applyAll content edits = .error error) := by
  refine ⟨?_, ?_, ?_⟩
  · intro out results h
    obtain ⟨happlicable, hoverlap⟩ := exists_applyAll_iff.mp ⟨out, results, h⟩
    have hbackward : (backward edits).Pairwise fun a b => b.stop ≤ a.start := by
      refine apart_of_overlap? hoverlap fun edit hedit => ?_
      exact (happlicable edit ((backward_perm edits).mem_iff.mp hedit)).inRange.1
    have hsymm : ∀ {a b : Edit}, Apart a b → Apart b a := Or.symm
    exact ⟨happlicable, ((backward_perm edits).pairwise_iff hsymm).mp (hbackward.imp Or.inr)⟩
  · intro happlicable hapart hne
    refine exists_applyAll_iff.mpr ⟨happlicable, overlap?_eq_none ?_⟩
    exact backward_apart (fun edit hedit => (happlicable edit hedit).inRange.1) hapart hne
  · intro h
    obtain ⟨place, edit, before, after, hdecides, hbackward, hbefore⟩ := exists_decides h
    rcases current_cases edit content with ⟨happlicable, -⟩ | ⟨-, error, hrefused, hcurrent⟩
    · exact absurd happlicable hdecides.not_applicable
    · refine ⟨place, edit, error, hdecides, hrefused, ?_⟩
      rw [applyAll, hbackward, checkAll_eq_error hbefore hcurrent]
      rfl

/-- Two spans that touch, of which the second one holds its new text. -/
def touchingEdits : List Edit :=
  [replacing ⟨"A.java".toList⟩ 4 5 "b".toList "c".toList,
    replacing ⟨"A.java".toList⟩ 3 4 "-".toList " ".toList]

/-- Edits that overlap, with other texts before them than they expect, and one that passes the end
of the text. -/
def staleEdits : List Edit :=
  [replacing ⟨"A.java".toList⟩ 0 1 "A".toList "x".toList,
    replacing ⟨"A.java".toList⟩ 3 5 "-".toList "c".toList,
    replacing ⟨"A.java".toList⟩ 3 9 "-".toList "b".toList]

theorem applyAll_staleEdits :
    (∃ out results, applyAll "aé b".toList touchingEdits = .ok (out, results) ∧
        (∀ edit ∈ touchingEdits, edit.Applicable "aé b".toList) ∧ touchingEdits.Pairwise Apart) ∧
      (∃ edit ∈ staleEdits, ¬edit.Applicable "aé b".toList) ∧
      applyAll "aé b".toList staleEdits =
        .error (.mismatch ⟨"A.java".toList⟩ 3 5 " b".toList) := by
  have htouching : ∀ edit ∈ touchingEdits, edit.Applicable "aé b".toList := by
    simp only [touchingEdits, List.forall_mem_cons]
    exact ⟨exists_current_iff.mp ⟨"b".toList, by decide⟩,
      exists_current_iff.mp ⟨" ".toList, by decide⟩, List.forall_mem_nil _⟩
  obtain ⟨haccepted, happlied, -⟩ := applyAll_verdict "aé b".toList touchingEdits
  obtain ⟨out, results, hok⟩ := happlied htouching (by simp [touchingEdits, replacing, Apart])
    (by simp [touchingEdits, replacing])
  have hstale : ¬staleEdits[1].Applicable "aé b".toList := by
    rw [← exists_current_iff]
    rintro ⟨found, hfound⟩
    have herror : staleEdits[1].current "aé b".toList =
        .error (.mismatch ⟨"A.java".toList⟩ 3 5 " b".toList) := by decide
    rw [herror] at hfound
    cases hfound
  have hexists : ∃ edit ∈ staleEdits, ¬edit.Applicable "aé b".toList :=
    ⟨staleEdits[1], by simp [staleEdits], hstale⟩
  obtain ⟨place, edit, error, hdecides, hrefused, herror⟩ :=
    (applyAll_verdict "aé b".toList staleEdits).2.2 hexists
  have hedit : staleEdits[1] = edit := by
    have hget := hdecides.getElem?_eq
    have hforemost := hdecides.foremost 1 staleEdits[1] rfl hstale
    rcases place with _ | _ | _ | place
    · obtain rfl := Option.some.inj hget
      simp [staleEdits, replacing] at hforemost
    · exact Option.some.inj hget
    · obtain rfl := Option.some.inj hget
      simp [staleEdits, replacing] at hforemost
    · cases hget
  subst hedit
  refine ⟨⟨out, results, hok, haccepted out results hok⟩, hexists, ?_⟩
  cases hrefused with
  | badRange h => exact absurd (by decide) h
  | mismatch hslice =>
      obtain rfl := Option.some.inj hslice
      exact herror

end LogTemplate.Edit
