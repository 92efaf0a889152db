import LogTemplate.Proofs.Edit.Weave

namespace LogTemplate

namespace Buffer

variable {buffer : Buffer} {position : Position} {span : Span} {offset start stop : Nat}

theorem isBoundary_of_offset? (h : buffer.offset? position = .ok (some offset)) :
    buffer.text.isBoundary offset = true := by
  obtain ⟨_, _, _, _, _, hboundary⟩ := offset?_eq_ok_some_iff.mp h
  exact hboundary

theorem exists_slice?_of_offset? (hstart : buffer.offset? span.start = .ok (some start))
    (hstop : buffer.offset? span.stop = .ok (some stop)) :
    (∃ found, buffer.text.slice? start stop = some found) ↔ start ≤ stop := by
  rw [Text.exists_slice?_iff]
  have hboundary := isBoundary_of_offset? hstop
  obtain ⟨u, v, htext, hsize⟩ := Text.isBoundary_iff.mp hboundary
  have hle : stop ≤ buffer.text.byteSize := by
    rw [htext, Text.byteSize_append]
    omega
  exact ⟨fun h => h.1, fun h => ⟨h, hle, isBoundary_of_offset? hstart, hboundary⟩⟩

end Buffer

namespace Edit

variable {file : Path} {buffer : Buffer} {span : Span} {replacement : Text} {edit : Edit}
  {error : EditError}

/-- Why a span cannot be pinned. Its start is looked at first, then its stop, then their order. -/
inductive Unpinnable (file : Path) (buffer : Buffer) (span : Span) : EditError → Prop where
  | noStart (hstart : buffer.offset? span.start = .ok none) :
      Unpinnable file buffer span (.noPosition file span.start)
  | startOverflow (hstart : buffer.offset? span.start = .error .overflow) :
      Unpinnable file buffer span .overflow
  | noStop {start : Nat} (hstart : buffer.offset? span.start = .ok (some start))
      (hstop : buffer.offset? span.stop = .ok none) :
      Unpinnable file buffer span (.noPosition file span.stop)
  | stopOverflow {start : Nat} (hstart : buffer.offset? span.start = .ok (some start))
      (hstop : buffer.offset? span.stop = .error .overflow) :
      Unpinnable file buffer span .overflow
  | reversed {start stop : Nat} (hstart : buffer.offset? span.start = .ok (some start))
      (hstop : buffer.offset? span.stop = .ok (some stop)) (hlt : stop < start) :
      Unpinnable file buffer span (.badRange start stop buffer.text.byteSize)

theorem Unpinnable.pin_eq (h : Unpinnable file buffer span error) (replacement : Text) :
    pin file buffer span replacement = .error error := by
  cases h with
  | noStart hstart => simp [pin, offsetIn, hstart, bind, Except.bind]
  | startOverflow hstart => simp [pin, offsetIn, hstart, bind, Except.bind]
  | noStop hstart hstop => simp [pin, offsetIn, hstart, hstop, bind, Except.bind]
  | stopOverflow hstart hstop => simp [pin, offsetIn, hstart, hstop, bind, Except.bind]
  | @reversed start stop hstart hstop hlt =>
      have hslice : buffer.text.slice? start stop = none := by
        rw [Option.eq_none_iff_forall_ne_some]
        intro found hfound
        have hle := Text.le_of_slice? hfound
        omega
      simp [pin, offsetIn, hstart, hstop, hslice, bind, Except.bind]

theorem exists_pin_iff (file : Path) (buffer : Buffer) (span : Span) (replacement : Text) :
    (∃ edit, pin file buffer span replacement = .ok edit) ↔
      ∃ start stop, buffer.offset? span.start = .ok (some start) ∧
        buffer.offset? span.stop = .ok (some stop) ∧ start ≤ stop := by
  constructor
  · rintro ⟨edit, h⟩
    obtain ⟨start, stop, found, hstart, hstop, hslice, -⟩ := pin_eq_ok_iff.mp h
    exact ⟨start, stop, hstart, hstop, Text.le_of_slice? hslice⟩
  · rintro ⟨start, stop, hstart, hstop, hle⟩
    obtain ⟨found, hslice⟩ := (Buffer.exists_slice?_of_offset? hstart hstop).mpr hle
    exact ⟨_, pin_eq_ok_iff.mpr ⟨start, stop, found, hstart, hstop, hslice, rfl⟩⟩

theorem exists_unpinnable (file : Path)
    (h : ¬∃ start stop, buffer.offset? span.start = .ok (some start) ∧
      buffer.offset? span.stop = .ok (some stop) ∧ start ≤ stop) :
    ∃ error, Unpinnable file buffer span error := by
  cases hstart : buffer.offset? span.start with
  | error => exact ⟨_, .startOverflow hstart⟩
  | ok start? =>
      cases start? with
      | none => exact ⟨_, .noStart hstart⟩
      | some start =>
          cases hstop : buffer.offset? span.stop with
          | error => exact ⟨_, .stopOverflow hstart hstop⟩
          | ok stop? =>
              cases stop? with
              | none => exact ⟨_, .noStop hstart hstop⟩
              | some stop =>
                  have hlt : stop < start := by
                    by_contra hle
                    exact h ⟨start, stop, hstart, hstop, not_lt.mp hle⟩
                  exact ⟨_, .reversed hstart hstop hlt⟩

theorem pin_eq_error_iff :
    pin file buffer span replacement = .error error ↔ Unpinnable file buffer span error := by
  constructor
  · intro h
    have hnot : ¬∃ edit, pin file buffer span replacement = .ok edit := by
      rintro ⟨edit, hedit⟩
      rw [h] at hedit
      cases hedit
    rw [exists_pin_iff] at hnot
    obtain ⟨error', herror'⟩ := exists_unpinnable file hnot
    obtain rfl := Except.error.inj (h.symm.trans (herror'.pin_eq replacement))
    exact herror'
  · exact fun h => h.pin_eq replacement

theorem applyAll_singleton {before found after : Text} (hstart : before.byteSize = edit.start)
    (hstop : (before ++ found).byteSize = edit.stop) (hadmits : edit.expected.admits found = true) :
    applyAll (before ++ (found ++ after)) [edit] =
      .ok (before ++ (edit.newText ++ after), [edit.result (before ++ (found ++ after))]) := by
  have hslice : (before ++ (found ++ after)).slice? edit.start edit.stop = some found :=
    Text.slice?_eq_some_iff.mpr ⟨before, after, rfl, hstart, hstop⟩
  have hbackward : backward [edit] = [edit] := List.mergeSort_singleton edit
  refine applyAll_eq_ok_iff.mpr ⟨?_, ?_, rfl⟩
  · rw [hbackward]
    refine checkAll_eq_ok_iff.mpr ⟨List.forall_mem_singleton.mpr ⟨found, ?_⟩, rfl⟩
    simp [current, hslice, hadmits]
  · rw [hbackward, List.foldl_cons, List.foldl_nil, splice_append hstart hstop]

/-- A proposal is pinned exactly when both ends of its span have an offset and stand in order. The
edit then replaces what the span holds, and applied to the text it was made for it puts the
replacement there and keeps all else. Otherwise the error is the one of the first check that
fails. -/
theorem ofProposal_verdict (file : Path) (source : Text) (proposal : Proposal) :
    ((∃ edit, ofProposal file (.ofText source) proposal = .ok edit) ↔
        ∃ start stop, (Buffer.ofText source).offset? proposal.span.start = .ok (some start) ∧
          (Buffer.ofText source).offset? proposal.span.stop = .ok (some stop) ∧ start ≤ stop) ∧
      (∀ edit, ofProposal file (.ofText source) proposal = .ok edit →
        ∃ before found after, source = before ++ (found ++ after) ∧
          (Buffer.ofText source).offset? proposal.span.start = .ok (some before.byteSize) ∧
          (Buffer.ofText source).offset? proposal.span.stop =
            .ok (some (before ++ found).byteSize) ∧
          (Buffer.ofText source).slice? proposal.span = .ok (some found) ∧
          edit = replacing file before.byteSize (before ++ found).byteSize proposal.replacement
            found ∧
          applyAll source [edit] =
            .ok (before ++ (proposal.replacement ++ after), [edit.result source])) ∧
      ∀ error, ofProposal file (.ofText source) proposal = .error error ↔
        Unpinnable file (.ofText source) proposal.span error := by
  refine ⟨exists_pin_iff _ _ _ _, ?_, fun error => pin_eq_error_iff⟩
  intro edit h
  obtain ⟨start, stop, found, hstart, hstop, hslice, rfl⟩ := pin_eq_ok_iff.mp h
  rw [Buffer.text_ofText] at hslice
  obtain ⟨before, after, rfl, rfl, rfl⟩ := Text.slice?_eq_some_iff.mp hslice
  refine ⟨before, found, after, rfl, hstart, hstop, ?_, rfl, ?_⟩
  · rw [Buffer.slice?_eq_ok_some_iff, Buffer.text_ofText]
    exact ⟨_, _, hstart, hstop, hslice⟩
  · exact applyAll_singleton rfl rfl (Expected.admits_ofText found)

/-- A line that ends with a return, and one with more bytes than are remembered themselves. -/
def longText : Text :=
  "é\r\n".toList ++ (List.replicate 1025 'x' ++ ";\n".toList)

def shortening (span : Span) : Proposal where
  span := span
  replacement := "y".toList
  statement := ⟨"y;".toList, 1, 1⟩
  template := ⟨"\"\"".toList, []⟩

theorem ofProposal_longText :
    (∃ edit, ofProposal ⟨"A.java".toList⟩ (.ofText longText) (shortening ⟨⟨1, 0⟩, ⟨1, 1025⟩⟩) =
        .ok edit ∧ (∃ value, edit.expected = .digest value) ∧
        applyAll longText [edit] = .ok ("é\r\ny;\n".toList, [edit.result longText])) ∧
      ofProposal ⟨"A.java".toList⟩ (.ofText longText) (shortening ⟨⟨1, 1025⟩, ⟨1, 0⟩⟩) =
        .error (.badRange 1029 4 1031) := by
  have hstart : (Buffer.ofText longText).offset? ⟨1, 0⟩ = .ok (some 4) := by decide +kernel
  have hstop : (Buffer.ofText longText).offset? ⟨1, 1025⟩ = .ok (some 1029) := by decide +kernel
  constructor
  · obtain ⟨hpinned, hverdict, -⟩ := ofProposal_verdict ⟨"A.java".toList⟩ longText
      (shortening ⟨⟨1, 0⟩, ⟨1, 1025⟩⟩)
    obtain ⟨edit, hedit⟩ := hpinned.mpr ⟨4, 1029, hstart, hstop, by decide⟩
    obtain ⟨before, found, after, hsource, hbefore, -, hslice, hnew, happly⟩ := hverdict edit hedit
    have hfound : List.replicate 1025 'x' = found := by
      have hheld : (Buffer.ofText longText).slice? ⟨⟨1, 0⟩, ⟨1, 1025⟩⟩ =
          .ok (some (List.replicate 1025 'x')) := by decide +kernel
      exact Option.some.inj (Except.ok.inj (hheld.symm.trans hslice))
    subst hfound
    have hsplit := Text.splitFrom_byteSize_append before (List.replicate 1025 'x' ++ after)
    rw [← hsource, Option.some.inj (Except.ok.inj (hbefore.symm.trans hstart))] at hsplit
    have hcut : Text.splitFrom 4 longText =
        ("é\r\n".toList, List.replicate 1025 'x' ++ ";\n".toList) := rfl
    obtain ⟨rfl, hrest⟩ := Prod.mk.inj (hcut.symm.trans hsplit)
    obtain rfl := List.append_cancel_left hrest
    have hlong : ¬Text.byteSize (List.replicate 1025 'x') ≤ Expected.exactLimit := by
      decide +kernel
    refine ⟨edit, hedit, ⟨Digest.ofBytes (Text.toBytes (List.replicate 1025 'x')), ?_⟩, happly⟩
    rw [hnew, replacing, Expected.ofText, if_neg hlong]
  · obtain ⟨-, -, herror⟩ := ofProposal_verdict ⟨"A.java".toList⟩ longText
      (shortening ⟨⟨1, 1025⟩, ⟨1, 0⟩⟩)
    have hsize : (Buffer.ofText longText).text.byteSize = 1031 := by decide +kernel
    rw [← hsize]
    exact (herror _).mpr (.reversed hstop hstart (by decide))

end Edit

end LogTemplate
