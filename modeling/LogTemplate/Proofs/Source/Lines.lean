import LogTemplate.Proofs.Text.Cut
import LogTemplate.Proofs.Text.Trim
import LogTemplate.Source.Buffer

namespace LogTemplate

namespace Line

/-- A line before the last one: its end is marked, and no mark of an end comes earlier. -/
structure Ended (line : Line) : Prop where
  newline_not_mem : '\n' ∉ line.content
  ending_ne : line.ending ≠ .endOfText
  return_not_last : line.ending = .newline → line.content.getLast? ≠ some '\r'

/-- Lines of a text: all but the last one are ended, and the last one ends with the text. -/
inductive Chain : List Line → Prop where
  | last {content : Text} (newline_not_mem : '\n' ∉ content) : Chain [⟨content, .endOfText⟩]
  | cons {line : Line} {lines : List Line} (ended : line.Ended) (chain : Chain lines) :
      Chain (line :: lines)

theorem Chain.newline_not_mem {lines : List Line} (h : Chain lines) :
    ∀ line ∈ lines, '\n' ∉ line.content := by
  induction h with
  | last hcontent =>
      intro line hline
      obtain rfl := List.mem_singleton.mp hline
      exact hcontent
  | cons hended _ ih =>
      intro line hline
      rcases List.mem_cons.mp hline with rfl | hline
      · exact hended.newline_not_mem
      · exact ih line hline

theorem Chain.ended_of_mem {above below : List Line} (h : Chain (above ++ below))
    (hbelow : below ≠ []) : ∀ line ∈ above, line.Ended := by
  induction above with
  | nil => simp
  | cons line above ih =>
      obtain ⟨next, rest, hrest⟩ : ∃ next rest, above ++ below = next :: rest :=
        List.exists_cons_of_ne_nil (by simp [hbelow])
      rw [List.cons_append, hrest] at h
      cases h with
      | cons hended hchain =>
          intro other hother
          rcases List.mem_cons.mp hother with rfl | hother
          · exact hended
          · exact ih (hrest ▸ hchain) other hother

theorem chain_append_last {lines : List Line} {content : Text} (h : ∀ line ∈ lines, line.Ended)
    (hcontent : '\n' ∉ content) : Chain (lines ++ [⟨content, .endOfText⟩]) := by
  induction lines with
  | nil => exact .last hcontent
  | cons line lines ih =>
      exact .cons (h line (by simp)) (ih fun other hother => h other (by simp [hother]))

theorem Ended.of_append {u v : Text} {ending : LineEnd} (h : Ended ⟨u ++ v, ending⟩) :
    Ended ⟨v, ending⟩ := by
  refine ⟨fun hmem => h.newline_not_mem (List.mem_append_right u hmem), h.ending_ne, ?_⟩
  intro hending hlast
  apply h.return_not_last hending
  simp only at hlast
  simp [hlast]

theorem split_cons {c : Char} {cs : Text} (hc : c ≠ '\n')
    (hreturn : c = '\r' → cs.head? ≠ some '\n') :
    split (c :: cs) = (split cs).modifyHead (push c) := by
  rw [split]
  · exact hc
  · rintro tail rfl rfl
    exact hreturn rfl rfl

theorem split_ne_nil (text : Text) : split text ≠ [] := by
  fun_induction split text with
  | case1 => simp
  | case2 => simp
  | case3 => simp
  | case4 c cs hnewline hreturn ih => simpa using ih

theorem flatMap_text_split (text : Text) : (split text).flatMap Line.text = text := by
  fun_induction split text with
  | case1 => rfl
  | case2 cs ih => simp [Line.text, LineEnd.text, ih]
  | case3 cs ih => simp [Line.text, LineEnd.text, ih]
  | case4 c cs hnewline hreturn ih =>
      obtain ⟨line, lines, hlines⟩ := List.exists_cons_of_ne_nil (split_ne_nil cs)
      rw [hlines, List.flatMap_cons] at ih
      rw [hlines, List.modifyHead_cons, List.flatMap_cons, ← ih]
      simp [push, Line.text]

theorem Chain.push {c : Char} {line : Line} {lines : List Line} (h : Chain (line :: lines))
    (hc : c ≠ '\n') (hreturn : c = '\r' → line ≠ ⟨[], .newline⟩) :
    Chain (line.push c :: lines) := by
  cases h with
  | @last content hcontent =>
      exact .last (by simpa [hc.symm] using hcontent)
  | cons hended hchain =>
      refine .cons ⟨?_, hended.ending_ne, ?_⟩ hchain
      · simpa [Line.push, hc.symm] using hended.newline_not_mem
      · intro hending hlast
        simp only [Line.push, List.getLast?_cons, Option.some.injEq] at hlast hending
        cases hcontent : line.content.getLast? with
        | none =>
            have hnil : line.content = [] := by simpa using hcontent
            apply hreturn (by simpa [hcontent] using hlast)
            cases line
            simp_all
        | some d =>
            apply hended.return_not_last hending
            rw [hcontent] at hlast ⊢
            exact congrArg some hlast

theorem chain_split (text : Text) : Chain (split text) := by
  fun_induction split text with
  | case1 => exact .last (by simp)
  | case2 cs ih => exact .cons ⟨by simp, by simp, by simp⟩ ih
  | case3 cs ih => exact .cons ⟨by simp, by simp, by simp⟩ ih
  | case4 c cs hnewline hreturn ih =>
      obtain ⟨line, lines, hlines⟩ := List.exists_cons_of_ne_nil (split_ne_nil cs)
      rw [hlines] at ih ⊢
      refine ih.push hnewline ?_
      rintro rfl rfl
      have htext := flatMap_text_split cs
      rw [hlines, List.flatMap_cons] at htext
      exact hreturn _ rfl htext.symm

theorem split_text_append {line : Line} (h : line.Ended) (rest : Text) :
    split (line.text ++ rest) = line :: split rest := by
  obtain ⟨content, ending⟩ := line
  induction content with
  | nil =>
      cases ending with
      | newline => rfl
      | returnNewline => rfl
      | endOfText => exact absurd rfl h.ending_ne
  | cons c content ih =>
      have hnewline : c ≠ '\n' := by
        rintro rfl
        exact h.newline_not_mem (by simp)
      have htail : Ended ⟨content, ending⟩ := Ended.of_append (u := [c]) h
      have hreturn : c = '\r' → ((⟨content, ending⟩ : Line).text ++ rest).head? ≠ some '\n' := by
        rintro rfl hhead
        cases content with
        | nil =>
            cases ending with
            | newline => exact h.return_not_last rfl rfl
            | returnNewline => simp [Line.text, LineEnd.text] at hhead
            | endOfText => exact h.ending_ne rfl
        | cons d content =>
            obtain rfl : d = '\n' := by simpa [Line.text] using hhead
            exact htail.newline_not_mem (by simp)
      have hcons := split_cons hnewline hreturn
      rw [ih htail, List.modifyHead_cons] at hcons
      exact hcons

theorem split_of_newline_not_mem {content : Text} (h : '\n' ∉ content) :
    split content = [⟨content, .endOfText⟩] := by
  induction content with
  | nil => rfl
  | cons c content ih =>
      have hhead : content.head? ≠ some '\n' := by
        intro hhead
        exact h (List.mem_cons_of_mem c (List.mem_of_head? hhead))
      rw [split_cons (by rintro rfl; simp at h) fun _ => hhead,
        ih fun hmem => h (List.mem_cons_of_mem c hmem)]
      rfl

/-- Lines that form a chain are the lines of the text they make up. -/
theorem split_flatMap_text {lines : List Line} (h : Chain lines) :
    split (lines.flatMap Line.text) = lines := by
  induction h with
  | last hcontent =>
      simpa [Line.text, LineEnd.text] using split_of_newline_not_mem hcontent
  | cons hended _ ih =>
      rw [List.flatMap_cons, split_text_append hended, ih]

/-- The lines of a text without the blanks around them, put together. -/
def joinTrimmed (text : Text) : Text :=
  ((split text).map fun line => line.content.trim).flatten

theorem joinTrimmed_of_newline_not_mem {text : Text} (h : '\n' ∉ text) :
    joinTrimmed text = text.trim := by
  simp [joinTrimmed, split_of_newline_not_mem h]

theorem split_append_of_not_blank {u : Text} (v : Text) (h : ∀ c ∈ u, isBlank c = false) :
    split (u ++ v) =
      (split v).modifyHead fun line => { line with content := u ++ line.content } := by
  induction u with
  | nil =>
      obtain ⟨line, lines, hlines⟩ := List.exists_cons_of_ne_nil (split_ne_nil v)
      simp [hlines]
  | cons c u ih =>
      have hc : isBlank c = false := h c (by simp)
      have hnewline : c ≠ '\n' := by
        rintro rfl
        exact absurd hc (by decide)
      have hreturn : c = '\r' → (u ++ v).head? ≠ some '\n' := by
        rintro rfl
        exact absurd hc (by decide)
      rw [List.cons_append, split_cons hnewline hreturn, ih fun d hd => h d (by simp [hd])]
      obtain ⟨line, lines, hlines⟩ := List.exists_cons_of_ne_nil (split_ne_nil v)
      simp [hlines, push]

theorem exists_joinTrimmed_append {u : Text} (v : Text) (h : ∀ c ∈ u, isBlank c = false) :
    ∃ rest, joinTrimmed (u ++ v) = u ++ rest := by
  obtain ⟨line, lines, hlines⟩ := List.exists_cons_of_ne_nil (split_ne_nil v)
  obtain ⟨rest, hrest⟩ := Text.exists_trim_append line.content (Text.trimmed_of_not_blank h)
  refine ⟨rest ++ (lines.map fun line => line.content.trim).flatten, ?_⟩
  rw [joinTrimmed, split_append_of_not_blank v h, hlines]
  simp [hrest]

end Line

end LogTemplate
