import LogTemplate.Proofs.Source.Partition

namespace LogTemplate.Buffer

/-- The position lies in the content of its line, between two characters of it, at `offset`. -/
structure Stands (buffer : Buffer) (position : Position) (offset : Nat) : Prop where
  line_lt : position.line < buffer.lineCount
  column_le : position.column ≤ (buffer.lineAt position.line).byteSize
  boundary : (buffer.lineAt position.line).isBoundary position.column = true
  offset_eq : offset = buffer.lineStart position.line + position.column

/-- The line exists, and the sum of its start and the column does not fit into a word. -/
structure Overflows (buffer : Buffer) (position : Position) : Prop where
  line_lt : position.line < buffer.lineCount
  wordSize_le : wordSize ≤ buffer.lineStart position.line + position.column

variable {buffer : Buffer} {position : Position} {offset i : Nat}

theorem lineStop_le_byteSize (hi : i < buffer.lineCount) :
    buffer.lineStop i ≤ buffer.text.byteSize := by
  have hline : buffer.lines[i]? = some buffer.lines[i] := List.getElem?_eq_getElem hi
  exact (Text.exists_slice?_iff.mp ⟨_, slice?_content hline⟩).2.1

theorem isBoundary_lineStart_add {column : Nat} (hi : i < buffer.lineCount)
    (hcolumn : column ≤ (buffer.lineAt i).byteSize) :
    buffer.text.isBoundary (buffer.lineStart i + column) = true ↔
      (buffer.lineAt i).isBoundary column = true := by
  have hline : buffer.lines[i]? = some buffer.lines[i] := List.getElem?_eq_getElem hi
  rw [lineAt_eq hline] at hcolumn ⊢
  rw [text_eq_append hline, lineStart]
  exact Text.isBoundary_add_iff hcolumn

theorem Stands.le_lineStop (h : buffer.Stands position offset) :
    offset ≤ buffer.lineStop position.line := by
  rw [h.offset_eq, lineStop]
  exact Nat.add_le_add_left h.column_le _

theorem stands_of_offset? (h : buffer.offset? position = .ok (some offset)) :
    buffer.Stands position offset := by
  obtain ⟨line, hline, rfl, -, hle, hboundary⟩ := offset?_eq_ok_some_iff.mp h
  have hlt : position.line < buffer.lineCount := (List.getElem?_eq_some_iff.mp hline).1
  have hcolumn : position.column ≤ (buffer.lineAt position.line).byteSize := by
    rw [lineAt_eq hline]
    exact Nat.le_of_add_le_add_left hle
  exact ⟨hlt, hcolumn, (isBoundary_lineStart_add hlt hcolumn).mp hboundary, rfl⟩

section Words

variable (hsize : buffer.text.byteSize < wordSize)

include hsize

theorem Stands.lt_wordSize (h : buffer.Stands position offset) : offset < wordSize :=
  (h.le_lineStop.trans (lineStop_le_byteSize h.line_lt)).trans_lt hsize

theorem Stands.offset?_eq_ok (h : buffer.Stands position offset) :
    buffer.offset? position = .ok (some offset) := by
  obtain ⟨line, hline⟩ : ∃ line, buffer.lines[position.line]? = some line :=
    ⟨_, List.getElem?_eq_getElem h.line_lt⟩
  have hle := h.le_lineStop
  rw [lineStop, lineAt_eq hline] at hle
  refine offset?_eq_ok_some_iff.mpr ⟨_, hline, h.offset_eq, h.lt_wordSize hsize, hle, ?_⟩
  rw [h.offset_eq]
  exact (isBoundary_lineStart_add h.line_lt h.column_le).mpr h.boundary

end Words

theorem offset?_eq_error_iff_overflows :
    buffer.offset? position = .error .overflow ↔ buffer.Overflows position := by
  rw [offset?_eq_error_iff]
  exact ⟨fun h => ⟨h.1, h.2⟩, fun h => ⟨h.line_lt, h.wordSize_le⟩⟩

/-- A position has an offset exactly when it stands in its line. One that does not stand there is
rejected, unless the sum of the line's start and the column does not fit into a word: then there is
no answer at all. So columns past the end of their line are rejected if and only if that sum does
not overflow. -/
theorem offset?_respects_line_iff (source : Text) (position : Position)
    (hsize : source.byteSize < wordSize) :
    (∀ offset, (ofText source).offset? position = .ok (some offset) ↔
        (ofText source).Stands position offset) ∧
      ((ofText source).offset? position = .error .overflow ↔
        (ofText source).Overflows position) ∧
      ((∃ answer, (ofText source).offset? position = .ok answer ∧
          ∀ offset, answer = some offset ↔ (ofText source).Stands position offset) ↔
        ¬(ofText source).Overflows position) := by
  have hsize' : (ofText source).text.byteSize < wordSize := by rwa [text_ofText]
  have hstands : ∀ offset, (ofText source).offset? position = .ok (some offset) ↔
      (ofText source).Stands position offset :=
    fun offset => ⟨stands_of_offset?, fun h => h.offset?_eq_ok hsize'⟩
  refine ⟨hstands, offset?_eq_error_iff_overflows, ?_, ?_⟩
  · rintro ⟨answer, hanswer, -⟩ hoverflows
    rw [offset?_eq_error_iff_overflows.mpr hoverflows] at hanswer
    cases hanswer
  · intro hfits
    cases hanswer : (ofText source).offset? position with
    | error => exact absurd (offset?_eq_error_iff_overflows.mp hanswer) hfits
    | ok answer =>
        refine ⟨answer, rfl, fun offset => ?_⟩
        rw [← hstands offset, hanswer, Except.ok.injEq]

/-- The second line starts at byte 2. Its end has an offset and the column behind it has none, but
a column two less than a word overflows. -/
theorem offset?_secondLine :
    (ofText "a\nb".toList).offset? ⟨1, 1⟩ = .ok (some 3) ∧
      (ofText "a\nb".toList).offset? ⟨1, 2⟩ = .ok none ∧
      (ofText "a\nb".toList).offset? ⟨1, wordSize - 2⟩ = .error .overflow ∧
      ¬∃ offset, (ofText "a\nb".toList).Stands ⟨1, wordSize - 2⟩ offset := by
  have hsize : Text.byteSize "a\nb".toList < wordSize := by decide
  have hoverflows : (ofText "a\nb".toList).Overflows ⟨1, wordSize - 2⟩ := ⟨by decide, by decide⟩
  obtain ⟨hstands, herror, -⟩ :=
    offset?_respects_line_iff "a\nb".toList ⟨1, wordSize - 2⟩ hsize
  refine ⟨by decide, by decide, herror.mpr hoverflows, ?_⟩
  rintro ⟨offset, hoffset⟩
  rw [← hstands, herror.mpr hoverflows] at hoffset
  cases hoffset

end LogTemplate.Buffer
