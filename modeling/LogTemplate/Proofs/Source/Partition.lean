import LogTemplate.Proofs.Source.Place
import LogTemplate.Proofs.Text.Utf8

namespace LogTemplate

namespace Line

theorem Chain.exists_last {lines : List Line} (h : Chain lines) :
    ∃ above content, lines = above ++ [⟨content, .endOfText⟩] := by
  induction h with
  | @last content _ => exact ⟨[], content, rfl⟩
  | @cons line lines _ _ ih =>
      obtain ⟨above, content, rfl⟩ := ih
      exact ⟨line :: above, content, rfl⟩

theorem Ended.count_newline {line : Line} (h : line.Ended) : line.text.count '\n' = 1 := by
  rw [Line.text, List.count_append, List.count_eq_zero.mpr h.newline_not_mem]
  cases hending : line.ending with
  | newline => rfl
  | returnNewline => rfl
  | endOfText => exact absurd hending h.ending_ne

theorem Chain.length_eq {lines : List Line} (h : Chain lines) :
    lines.length = (lines.flatMap Line.text).count '\n' + 1 := by
  induction h with
  | last hcontent => simp [Line.text, LineEnd.text, List.count_eq_zero.mpr hcontent]
  | cons hended _ ih =>
      rw [List.length_cons, ih, List.flatMap_cons, List.count_append, hended.count_newline]
      omega

theorem Ended.ending_text {line : Line} (h : line.Ended) :
    line.ending.text = if ['\r', '\n'] <:+ line.text then ['\r', '\n'] else ['\n'] := by
  obtain ⟨content, ending⟩ := line
  cases ending with
  | newline =>
      rw [if_neg]
      · rfl
      · rintro ⟨front, hfront⟩
        have hnewline : (front ++ ['\r']) ++ ['\n'] = content ++ ['\n'] := by
          simpa [Line.text, LineEnd.text] using hfront
        apply h.return_not_last rfl
        simp [← List.append_cancel_right hnewline]
  | returnNewline => exact (if_pos (List.suffix_append content _)).symm
  | endOfText => exact absurd rfl h.ending_ne

end Line

namespace Buffer

/-- The offset at which the content of a line stops. -/
def lineStop (buffer : Buffer) (index : Nat) : Nat :=
  buffer.lineStart index + (buffer.lineAt index).byteSize

section Line

variable {buffer : Buffer} {i : Nat} {line : Line} (h : buffer.lines[i]? = some line)

include h

theorem lineAt_eq : buffer.lineAt i = line.content := by
  simp [lineAt, h]

theorem lineStart_succ : buffer.lineStart (i + 1) = buffer.lineStart i + line.text.byteSize := by
  simp [lineStart, List.take_add_one, h]

theorem text_eq_append :
    buffer.text = (buffer.lines.take i).flatMap Line.text ++
      (line.content ++ (line.ending.text ++ (buffer.lines.drop (i + 1)).flatMap Line.text)) := by
  have hlines : buffer.lines = buffer.lines.take i ++ line :: buffer.lines.drop (i + 1) := by
    obtain ⟨hi, rfl⟩ := List.getElem?_eq_some_iff.mp h
    rw [← List.drop_eq_getElem_cons hi, List.take_append_drop]
  conv_lhs => rw [Buffer.text, hlines, List.flatMap_append, List.flatMap_cons, Line.text]
  simp

theorem slice?_content :
    buffer.text.slice? (buffer.lineStart i) (buffer.lineStop i) = some (buffer.lineAt i) := by
  rw [lineStop, lineAt_eq h]
  exact Text.slice?_eq_some_iff.mpr ⟨_, _, text_eq_append h, rfl, Text.byteSize_append _ _⟩

theorem slice?_ending :
    buffer.text.slice? (buffer.lineStop i) (buffer.lineStart (i + 1)) = some line.ending.text := by
  have htext := text_eq_append h
  rw [← List.append_assoc] at htext
  refine Text.slice?_eq_some_iff.mpr ⟨_, _, htext, ?_, ?_⟩
  · rw [lineStop, lineAt_eq h, Text.byteSize_append]
    rfl
  · rw [lineStart_succ h, Line.text, Text.byteSize_append, Text.byteSize_append,
      Text.byteSize_append, Nat.add_assoc]
    rfl

end Line

section Chain

variable {buffer : Buffer} (hchain : Line.Chain buffer.lines)

include hchain

theorem lineStop_last : buffer.lineStop (buffer.lineCount - 1) = buffer.text.byteSize := by
  obtain ⟨above, content, hlines⟩ := hchain.exists_last
  have hindex : buffer.lineCount - 1 = above.length := by simp [lineCount, hlines]
  have hline : buffer.lines[above.length]? = some ⟨content, .endOfText⟩ := by simp [hlines]
  have hbelow : buffer.lines.drop (above.length + 1) = [] := by simp [hlines]
  rw [hindex, lineStop, lineAt_eq hline, text_eq_append hline, hbelow, lineStart]
  simp [LineEnd.text]

theorem ended_of_lt {i : Nat} {line : Line} (hline : buffer.lines[i]? = some line)
    (hi : i + 1 < buffer.lineCount) : line.Ended := by
  rw [← List.take_append_drop (i + 1) buffer.lines] at hchain
  have hbelow : buffer.lines.drop (i + 1) ≠ [] := by
    rw [Ne, List.drop_eq_nil_iff, not_le]
    exact hi
  apply hchain.ended_of_mem hbelow
  exact List.mem_of_getElem? (i := i) (by simpa using hline)

end Chain

/-- The lines of a buffer divide a text. The bytes from the start of a line up to its stop are the
content of the line, and those from there up to the start of the next line are its end. -/
structure Partitions (buffer : Buffer) (source : Text) : Prop where
  lineCount_eq : buffer.lineCount = source.toBytes.count (UInt8.ofNat '\n'.toNat) + 1
  first : buffer.lineStart 0 = 0
  last : buffer.lineStop (buffer.lineCount - 1) = source.byteSize
  boundaries {i : Nat} (hi : i < buffer.lineCount) :
    source.isBoundary (buffer.lineStart i) = true ∧ source.isBoundary (buffer.lineStop i) = true
  content {i : Nat} (hi : i < buffer.lineCount) :
    source.slice? (buffer.lineStart i) (buffer.lineStop i) = some (buffer.lineAt i) ∧
      UInt8.ofNat '\n'.toNat ∉ (buffer.lineAt i).toBytes
  ending {i : Nat} {line : Line} (hline : buffer.lines[i]? = some line)
      (hi : i + 1 < buffer.lineCount) :
    source.slice? (buffer.lineStop i) (buffer.lineStart (i + 1)) = some line.ending.text ∧
      ∃ whole, source.slice? (buffer.lineStart i) (buffer.lineStart (i + 1)) = some whole ∧
        line.ending.text = if ['\r', '\n'] <:+ whole then ['\r', '\n'] else ['\n']
  toBytes_eq : source.toBytes =
    buffer.lines.flatMap fun line => line.content.toBytes ++ line.ending.text.toBytes

theorem partitions_text {buffer : Buffer} (hchain : Line.Chain buffer.lines) :
    buffer.Partitions buffer.text := by
  have hget : ∀ {i : Nat}, i < buffer.lineCount → ∃ line, buffer.lines[i]? = some line :=
    fun hi => ⟨_, List.getElem?_eq_getElem hi⟩
  have hcode : '\n'.toNat < 0x80 := by decide
  refine ⟨?_, rfl, lineStop_last hchain, ?_, ?_, ?_, ?_⟩
  · rw [Utf8.count_toBytes hcode]
    exact hchain.length_eq
  · intro i hi
    obtain ⟨line, hline⟩ := hget hi
    obtain ⟨-, -, hstart, hstop⟩ := Text.exists_slice?_iff.mp ⟨_, slice?_content hline⟩
    exact ⟨hstart, hstop⟩
  · intro i hi
    obtain ⟨line, hline⟩ := hget hi
    refine ⟨slice?_content hline, ?_⟩
    rw [lineAt_eq hline, ← List.count_eq_zero, Utf8.count_toBytes hcode, List.count_eq_zero]
    exact hchain.newline_not_mem line (List.mem_of_getElem? hline)
  · intro i line hline hi
    have hwhole := Text.slice?_append (slice?_content hline) (slice?_ending hline)
    rw [lineAt_eq hline] at hwhole
    exact ⟨slice?_ending hline, _, hwhole, (ended_of_lt hchain hline hi).ending_text⟩
  · simp [Buffer.text, Text.toBytes, Line.text, List.flatMap_assoc]

/-- The lines of a text divide it: nothing of it is lost, and nothing is in two lines. -/
theorem partitions_ofText (source : Text) : (ofText source).Partitions source := by
  have hpartitions : (ofText source).Partitions (ofText source).text :=
    partitions_text (Line.chain_split source)
  rwa [text_ofText] at hpartitions

/-- Lines that end with a return and a newline, one of them behind another return, an empty line,
and a last line without an end. -/
def returnsText : Text :=
  "é\r\n\rb\r\r\n\nc".toList

theorem partitions_returnsText :
    ((List.range 4).map fun i =>
        ((ofText returnsText).lineStart i, (ofText returnsText).lineStop i)) =
      [(0, 2), (4, 7), (9, 9), (10, 11)] ∧
      (ofText returnsText).lineCount = 4 ∧
      returnsText.slice? 7 9 = some ['\r', '\n'] ∧ returnsText.slice? 9 10 = some ['\n'] := by
  have hpartitions := partitions_ofText returnsText
  have hcount : (ofText returnsText).lineCount = 4 := by
    rw [hpartitions.lineCount_eq]
    decide
  have hsecond : (ofText returnsText).lines[1]? = some ⟨"\rb\r".toList, .returnNewline⟩ := rfl
  have hthird : (ofText returnsText).lines[2]? = some ⟨[], .newline⟩ := rfl
  exact ⟨by decide, hcount, (hpartitions.ending hsecond (by omega)).1,
    (hpartitions.ending hthird (by omega)).1⟩

end Buffer

end LogTemplate
