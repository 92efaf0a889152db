import LogTemplate.Proofs.Edit.Weave
import Mathlib.Data.List.Forall2

namespace LogTemplate

namespace Text

/-- The text with a carriage return before every newline. -/
def withReturns (text : Text) : Text :=
  text.flatMap fun c => if c = '\n' then ['\r', '\n'] else [c]

@[simp]
theorem withReturns_append (u v : Text) : withReturns (u ++ v) = withReturns u ++ withReturns v :=
  List.flatMap_append

theorem withReturns_of_newline_not_mem {text : Text} (h : '\n' ∉ text) :
    withReturns text = text := by
  induction text with
  | nil => rfl
  | cons c text ih =>
      obtain ⟨hc, htext⟩ := not_or.mp (mt List.mem_cons.mpr h)
      rw [withReturns, List.flatMap_cons, ← withReturns, ih htext, if_neg (Ne.symm hc)]
      rfl

theorem byteSize_le_withReturns (text : Text) : text.byteSize ≤ text.withReturns.byteSize := by
  induction text with
  | nil => exact Nat.le_refl 0
  | cons c text ih =>
      rw [withReturns, List.flatMap_cons, ← withReturns, byteSize_append, byteSize_cons]
      split
      · rename_i hc
        subst hc
        simp only [byteSize_cons, byteSize_nil]
        omega
      · simp only [byteSize_cons, byteSize_nil]
        omega

theorem eq_of_prefix_of_byteSize_eq {u v text : Text} (hu : u <+: text) (hv : v <+: text)
    (h : u.byteSize = v.byteSize) : u = v := by
  obtain ⟨rest, rfl⟩ := hu
  obtain ⟨rest', hrest⟩ := hv
  have hsplit := splitFrom_byteSize_append u rest
  rw [h, ← hrest, splitFrom_byteSize_append] at hsplit
  exact (Prod.mk.inj hsplit).1.symm

theorem slice?_withReturns {text u w part : Text} (hu : u <+: text) (hw : w <+: text)
    (h : text.slice? u.byteSize w.byteSize = some part) :
    text.withReturns.slice? u.withReturns.byteSize w.withReturns.byteSize =
      some part.withReturns := by
  obtain ⟨u', rest, htext, hstart, hstop⟩ := slice?_eq_some_iff.mp h
  obtain rfl : u' = u := eq_of_prefix_of_byteSize_eq ⟨_, htext.symm⟩ hu hstart
  obtain rfl : u' ++ part = w :=
    eq_of_prefix_of_byteSize_eq ⟨rest, by rw [htext, List.append_assoc]⟩ hw hstop
  exact slice?_eq_some_iff.mpr ⟨u'.withReturns, rest.withReturns, by simp [htext], rfl, by simp⟩

end Text

/-- The line with a return before its newline. -/
def Line.withReturn (line : Line) : Line where
  content := line.content
  ending :=
    match line.ending with
    | .newline => .returnNewline
    | ending => ending

namespace Line

theorem text_withReturn {line : Line} (hnewline : '\n' ∉ line.content)
    (hending : line.ending ≠ .returnNewline) : line.withReturn.text = line.text.withReturns := by
  obtain ⟨content, ending⟩ := line
  rw [Line.text, Line.text, Text.withReturns_append, Text.withReturns_of_newline_not_mem hnewline]
  cases ending with
  | newline => rfl
  | returnNewline => exact absurd rfl hending
  | endOfText => rfl

theorem Ended.withReturn {line : Line} (h : line.Ended) : line.withReturn.Ended := by
  obtain ⟨content, ending⟩ := line
  refine ⟨h.newline_not_mem, ?_, ?_⟩
  · cases ending with
    | newline => simp [Line.withReturn]
    | returnNewline => simp [Line.withReturn]
    | endOfText => exact absurd rfl h.ending_ne
  · intro hnewline
    cases ending with
    | newline => cases hnewline
    | returnNewline => cases hnewline
    | endOfText => cases hnewline

theorem Chain.map_withReturn {lines : List Line} (h : Chain lines) :
    Chain (lines.map withReturn) := by
  induction h with
  | last hcontent => exact .last hcontent
  | cons hended _ ih => exact .cons hended.withReturn ih

theorem flatMap_text_withReturn {lines : List Line}
    (hnewline : ∀ line ∈ lines, '\n' ∉ line.content)
    (hending : ∀ line ∈ lines, line.ending ≠ .returnNewline) :
    (lines.map withReturn).flatMap Line.text = Text.withReturns (lines.flatMap Line.text) := by
  induction lines with
  | nil => rfl
  | cons line lines ih =>
      rw [List.forall_mem_cons] at hnewline hending
      rw [List.map_cons, List.flatMap_cons, List.flatMap_cons, Text.withReturns_append,
        text_withReturn hnewline.1 hending.1, ih hnewline.2 hending.2]

variable {text : Text} (hreturn : '\r' ∉ text)

include hreturn

theorem ending_ne_of_return_not_mem : ∀ line ∈ split text, line.ending ≠ .returnNewline := by
  intro line hline hending
  apply hreturn
  rw [← flatMap_text_split text, List.mem_flatMap]
  exact ⟨line, hline, by simp [Line.text, hending, LineEnd.text]⟩

theorem split_withReturns : split text.withReturns = (split text).map withReturn := by
  have hchain := chain_split text
  have htext := flatMap_text_withReturn hchain.newline_not_mem (ending_ne_of_return_not_mem hreturn)
  rw [flatMap_text_split] at htext
  rw [← htext, split_flatMap_text hchain.map_withReturn]

end Line

namespace Buffer

variable {text : Text} (hreturn : '\r' ∉ text)

include hreturn

theorem contents_withReturns : (ofText text.withReturns).contents = (ofText text).contents := by
  rw [contents, contents, ofText, ofText, Line.split_withReturns hreturn, List.map_map]
  rfl

theorem Before.withReturns {position : Position} {before : Text}
    (h : (ofText text).Before position before) :
    (ofText text.withReturns).Before position before.withReturns := by
  obtain ⟨hlines, hcontent⟩ := h
  rename_i above below line u v
  have hsplit : (ofText text.withReturns).lines =
      above.map Line.withReturn ++ line.withReturn :: below.map Line.withReturn := by
    rw [ofText, Line.split_withReturns hreturn, ← List.map_cons, ← List.map_append, ← hlines]
    rfl
  have hmem : ∀ other ∈ above ++ [line], other ∈ Line.split text := by
    intro other hother
    rw [show Line.split text = _ from hlines, List.append_cons]
    exact List.mem_append_left _ hother
  have habove : (above.map Line.withReturn).flatMap Line.text =
      Text.withReturns (above.flatMap Line.text) := by
    apply Line.flatMap_text_withReturn
    · intro other hother
      exact (Line.chain_split text).newline_not_mem other (hmem other (by simp [hother]))
    · intro other hother
      exact Line.ending_ne_of_return_not_mem hreturn other (hmem other (by simp [hother]))
  have hu : '\n' ∉ u := by
    intro hnewline
    apply (Line.chain_split text).newline_not_mem line (hmem line (by simp))
    rw [hcontent]
    exact List.mem_append_left v hnewline
  have hbefore := Before.intro hsplit hcontent
  rw [List.length_map, habove] at hbefore
  rwa [Text.withReturns_append, Text.withReturns_of_newline_not_mem hu]

end Buffer

namespace Edit

/-- The second edit does to the text with returns what the first one does to the text. -/
structure Returned (text : Text) (edit edit' : Edit) : Prop where
  exists_start : ∃ u : Text, u <+: text ∧ edit.start = u.byteSize ∧
    edit'.start = u.withReturns.byteSize
  exists_stop : ∃ u : Text, u <+: text ∧ edit.stop = u.byteSize ∧
    edit'.stop = u.withReturns.byteSize
  newText_eq : edit'.newText = edit.newText
  newline_not_mem : '\n' ∉ edit.newText

theorem weave?_withReturns {text u out : Text} {edits edits' : List Edit}
    (hedits : List.Forall₂ (Returned text) edits edits') (hu : u <+: text)
    (h : weave? text u.byteSize edits = some out) :
    weave? text.withReturns u.withReturns.byteSize edits' = some out.withReturns := by
  induction hedits generalizing u out with
  | nil => exact Text.slice?_withReturns hu (List.prefix_refl text) h
  | @cons edit edit' edits edits' hedit _ ih =>
      obtain ⟨start, hstart, hedit_start, hedit_start'⟩ := hedit.exists_start
      obtain ⟨stop, hstop, hedit_stop, hedit_stop'⟩ := hedit.exists_stop
      simp only [weave?, Option.bind_eq_bind, Option.bind_eq_some_iff] at h ⊢
      obtain ⟨kept, hkept, rest, hrest, hout⟩ := h
      rw [hedit_start] at hkept
      rw [hedit_stop] at hrest
      refine ⟨kept.withReturns, ?_, rest.withReturns, ?_, ?_⟩
      · rw [hedit_start']
        exact Text.slice?_withReturns hu hstart hkept
      · rw [hedit_stop']
        exact ih hstop hrest
      · rw [← Option.some.inj hout, hedit.newText_eq, Text.withReturns_append,
          Text.withReturns_append, Text.withReturns_of_newline_not_mem hedit.newline_not_mem]
        rfl

end Edit

end LogTemplate
