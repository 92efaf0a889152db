import LogTemplate.Proofs.Source.Lines
import Mathlib.Tactic.Convert

namespace LogTemplate.Buffer

@[simp]
theorem text_ofText (text : Text) : (ofText text).text = text :=
  Line.flatMap_text_split text

theorem newline_not_mem_contents (text : Text) :
    ∀ line ∈ (ofText text).contents, '\n' ∉ line := by
  intro content hcontent
  obtain ⟨line, hline, rfl⟩ := List.mem_map.mp hcontent
  exact (Line.chain_split text).newline_not_mem line hline

/-- The position lies in the content of a line, and the text is all that stands before it. -/
inductive Before (buffer : Buffer) : Position → Text → Prop where
  | intro {above below : List Line} {line : Line} {u v : Text}
      (lines_eq : buffer.lines = above ++ line :: below) (content_eq : line.content = u ++ v) :
      Before buffer ⟨above.length, u.byteSize⟩ (above.flatMap Line.text ++ u)

variable {buffer : Buffer} {start stop : Position} {before : Text}

theorem Before.exists_append (h : buffer.Before start before) :
    ∃ after, buffer.text = before ++ after := by
  obtain ⟨hlines, hcontent⟩ := h
  rename_i above below line u v
  refine ⟨v ++ (line.ending.text ++ below.flatMap Line.text), ?_⟩
  rw [Buffer.text, hlines, List.flatMap_append, List.flatMap_cons, Line.text, hcontent]
  simp

theorem offset?_eq_ok (h : buffer.Before start before) (hsize : buffer.text.byteSize < wordSize) :
    buffer.offset? start = .ok (some before.byteSize) := by
  obtain ⟨after, htext⟩ := h.exists_append
  obtain ⟨hlines, hcontent⟩ := h
  rename_i above below line u v
  have hline : buffer.lines[above.length]? = some line := by simp [hlines]
  have hstart : buffer.lineStart above.length = Text.byteSize (above.flatMap Line.text) := by
    rw [lineStart, hlines, List.take_left]
  have hsum : Text.byteSize (above.flatMap Line.text ++ u) =
      buffer.lineStart above.length + u.byteSize := by
    rw [Text.byteSize_append, hstart]
  refine offset?_eq_ok_some_iff.mpr ⟨line, hline, hsum, ?_, ?_, ?_⟩
  · rw [htext, Text.byteSize_append] at hsize
    omega
  · rw [hsum, hcontent, Text.byteSize_append]
    exact Nat.add_le_add_left (Nat.le_add_right _ _) _
  · exact Text.isBoundary_iff.mpr ⟨_, after, htext, rfl⟩

def Holds (buffer : Buffer) (span : Span) (part : Text) : Prop :=
  ∃ before, buffer.Before span.start before ∧ buffer.Before span.stop (before ++ part)

theorem Holds.slice?_eq_ok {span : Span} {part : Text} (h : buffer.Holds span part)
    (hsize : buffer.text.byteSize < wordSize) : buffer.slice? span = .ok (some part) := by
  obtain ⟨before, hstart, hstop⟩ := h
  obtain ⟨after, htext⟩ := hstop.exists_append
  have hslice : buffer.text.slice? before.byteSize (before ++ part).byteSize = some part :=
    Text.slice?_eq_some_iff.mpr ⟨before, after, by simp [htext], rfl, rfl⟩
  exact slice?_eq_ok_some_iff.mpr
    ⟨_, _, offset?_eq_ok hstart hsize, offset?_eq_ok hstop hsize, hslice⟩

theorem holds_of_line {above below : List Line} {line : Line} {u part v : Text}
    (hlines : buffer.lines = above ++ line :: below) (hcontent : line.content = u ++ (part ++ v)) :
    buffer.Holds ⟨⟨above.length, u.byteSize⟩, ⟨above.length, (u ++ part).byteSize⟩⟩ part := by
  refine ⟨above.flatMap Line.text ++ u, .intro hlines hcontent, ?_⟩
  rw [List.append_assoc]
  exact .intro hlines (by rw [hcontent, List.append_assoc])

theorem holds_of_lines {above middle below : List Line} {first last : Line} {u v x y : Text}
    (hlines : buffer.lines = above ++ (first :: middle ++ last :: below))
    (hfirst : first.content = u ++ v) (hlast : last.content = x ++ y) :
    buffer.Holds
      ⟨⟨above.length, u.byteSize⟩, ⟨above.length + (first :: middle).length, x.byteSize⟩⟩
      (List.flatMap Line.text (⟨v, first.ending⟩ :: (middle ++ [⟨x, .endOfText⟩]))) := by
  have hsplit : buffer.lines = (above ++ first :: middle) ++ last :: below := by simp [hlines]
  have hstop := Before.intro hsplit hlast
  rw [List.length_append] at hstop
  refine ⟨above.flatMap Line.text ++ u, .intro hlines hfirst, ?_⟩
  convert hstop using 1
  simp [Line.text, LineEnd.text, hfirst]

theorem Before.byteSize_le {before' : Text} (h : buffer.Before start before)
    (h' : buffer.Before stop before') (hlt : start.line < stop.line) :
    before.byteSize ≤ before'.byteSize := by
  obtain ⟨hlines, hcontent⟩ := h
  rename_i above below line u v
  obtain ⟨hlines', -⟩ := h'
  rename_i above' below' line' u' v'
  have hshort : above ++ [line] <+: buffer.lines := ⟨below, by simp [hlines]⟩
  have hlong : above' <+: buffer.lines := ⟨line' :: below', hlines'.symm⟩
  have hlength : (above ++ [line]).length ≤ above'.length := by
    rw [List.length_append]
    exact hlt
  obtain ⟨between, rfl⟩ := List.prefix_of_prefix_length_le hshort hlong hlength
  simp only [List.flatMap_append, List.flatMap_cons, List.flatMap_nil, Text.byteSize_append,
    Line.text, hcontent]
  omega

end LogTemplate.Buffer
