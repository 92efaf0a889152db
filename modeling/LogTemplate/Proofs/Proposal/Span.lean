import LogTemplate.Proofs.Proposal.Origin
import LogTemplate.Proofs.Source.Extent
import LogTemplate.Proofs.Source.Place
import Mathlib.Data.List.Basic

namespace LogTemplate.Formatter

open Delimiter

/-- The part of a line's code that a span takes in, the line being read by itself. -/
def covered (code : Text) : Text :=
  match cutAt ';' code with
  | some (before, _) => before ++ [';']
  | none => code

theorem covered_of_cutAt {code before rest : Text} (h : cutAt ';' code = some (before, rest)) :
    covered code = before ++ [';'] := by
  rw [covered, h]

theorem exists_covered_append (code : Text) : ∃ rest, code = covered code ++ rest := by
  cases hcut : cutAt ';' code with
  | none => exact ⟨[], by simp [covered, hcut]⟩
  | some parts =>
      obtain ⟨before, rest⟩ := parts
      obtain ⟨rfl, -, -⟩ := cutAt_eq_some_iff.mp hcut
      exact ⟨rest, by simp [covered_of_cutAt hcut]⟩

theorem trimmed_covered {code : Text} (h : Text.Trimmed code) : Text.Trimmed (covered code) := by
  cases hcut : cutAt ';' code with
  | none => simpa [covered, hcut] using h
  | some parts =>
      obtain ⟨before, rest⟩ := parts
      obtain ⟨hcode, -, -⟩ := cutAt_eq_some_iff.mp hcut
      rw [covered_of_cutAt hcut]
      constructor
      · intro c hc
        apply h.head c
        rw [hcode]
        cases before with
        | nil => simpa using hc
        | cons d before => simpa using hc
      · intro c hc
        obtain rfl : ';' = c := by simpa using hc
        decide

theorem cutAt_blank {target : Char} {u v : Text} (htarget : isBlank target = false)
    (hu : Text.AllBlank u) (code : Text) (hv : Text.AllBlank v) :
    cutAt target (u ++ (code ++ v)) =
      (cutAt target code).map fun (before, rest) => (u ++ before, rest ++ v) := by
  have husearch := search_eq_none_of_not_mem Reader.fresh (not_mem_of_allBlank htarget hu)
  have hurun : Reader.fresh.run u = Reader.fresh :=
    run_of_plain 0 fun c hc => plain_of_isBlank (hu c hc)
  have hvsearch := search_eq_none_of_not_mem (Reader.fresh.run code)
    (not_mem_of_allBlank htarget hv)
  rw [cutAt_eq_search, search_append_of_none _ husearch, hurun, cutAt_eq_search]
  cases hcode : Reader.search (· = target) Reader.fresh code with
  | none =>
      rw [search_append_of_none _ hcode, hvsearch]
      rfl
  | some parts =>
      obtain ⟨before, found⟩ := parts
      rw [search_append_of_some _ hcode]
      obtain ⟨-, -, -, c, rest, rfl, -⟩ := search_eq_some_iff.mp hcode
      simp

theorem isSome_cutAt_trim {target : Char} (htarget : isBlank target = false) (v : Text) :
    (cutAt target v).isSome = (cutAt target v.trim).isSome := by
  obtain ⟨left, right, hleft, hright, hv⟩ := Text.exists_blank_append_trim v
  have hcut := cutAt_blank htarget hleft v.trim hright
  rw [← hv] at hcut
  rw [hcut, Option.isSome_map]

theorem exists_endColumn (u : Text) {v : Text} (hv : Text.trim v ≠ []) :
    ∃ blanks after, Text.AllBlank blanks ∧ v = blanks ++ (covered (Text.trim v) ++ after) ∧
      endColumn (u ++ v) (Text.byteSize u) =
        Text.byteSize (u ++ (blanks ++ covered (Text.trim v))) := by
  obtain ⟨blanks, post, hblanks, hpost, hsplit⟩ := Text.exists_blank_append_trim v
  have hcut := cutAt_blank (by decide : isBlank ';' = false) hblanks (Text.trim v) hpost
  rw [← hsplit] at hcut
  cases hcode : cutAt ';' (Text.trim v) with
  | none =>
      have hcovered : covered (Text.trim v) = Text.trim v := by rw [covered, hcode]
      have hlast : Text.trimEnd (u ++ (blanks ++ Text.trim v)) = u ++ (blanks ++ Text.trim v) := by
        apply Text.trimEnd_eq_self
        intro c hc
        apply (Text.trimmed_trim v).last c
        rwa [← List.append_assoc, List.getLast?_append_of_ne_nil _ hv] at hc
      have hend : Text.trimEnd (u ++ v) = u ++ (blanks ++ Text.trim v) := by
        conv_lhs => rw [hsplit, ← List.append_assoc blanks, ← List.append_assoc u,
          Text.trimEnd_append_blank hpost]
        exact hlast
      refine ⟨blanks, post, hblanks, by rw [hcovered, ← hsplit], ?_⟩
      rw [hcode] at hcut
      simp only [endColumn, Text.splitFrom_byteSize_append, hcut, Option.map_none, hcovered, hend]
  | some parts =>
      obtain ⟨before, rest⟩ := parts
      obtain ⟨htrim, -, -⟩ := cutAt_eq_some_iff.mp hcode
      have hcovered := covered_of_cutAt hcode
      refine ⟨blanks, rest ++ post, hblanks, ?_, ?_⟩
      · conv_lhs => rw [hsplit, htrim]
        simp [hcovered]
      · have hone : Text.byteSize [';'] = 1 := rfl
        rw [hcode] at hcut
        simp only [endColumn, Text.splitFrom_byteSize_append, hcut, Option.map_some, hcovered,
          Text.byteSize_append, hone]
        omega

theorem exists_indentation (line : Text) :
    ∃ blanks body, Text.AllBlank blanks ∧ line = blanks ++ body ∧
      indentation line = Text.byteSize blanks := by
  refine ⟨line.takeWhile fun c => c == ' ' || c == '\t',
    line.dropWhile fun c => c == ' ' || c == '\t', ?_, List.takeWhile_append_dropWhile.symm, rfl⟩
  intro c hc
  have hindent := List.mem_takeWhile_imp hc
  simp only [Bool.or_eq_true, beq_iff_eq] at hindent
  rcases hindent with rfl | rfl
  · decide
  · decide

open Statement

theorem lineAt_last (extent : Extent) :
    lineAt extent.lines extent.statement.last = extent.final := by
  rw [lineAt, extent.getElem?_last]
  rfl

theorem exists_spanOf_of_upper_eq_nil {extent : Extent} (hupper : extent.upper = [])
    (hfinal : extent.final.trim ≠ []) :
    ∃ indent blanks after, Text.AllBlank indent ∧ Text.AllBlank blanks ∧
      extent.final = indent ++ (blanks ++ (covered extent.final.trim ++ after)) ∧
      spanOf extent.lines extent.statement =
        { start := ⟨extent.before.length, Text.byteSize indent⟩
          stop := ⟨extent.before.length,
            Text.byteSize (indent ++ (blanks ++ covered extent.final.trim))⟩ } := by
  obtain ⟨indent, body, hindent, hline, hcolumn⟩ := exists_indentation extent.final
  have htrim : extent.final.trim = Text.trim body := by
    rw [hline, Text.trim_blank_append hindent]
  have hlast : extent.statement.last = extent.statement.first :=
    (extent.upper_eq_nil_iff.mp hupper).symm
  have hfirst : lineAt extent.lines extent.statement.first = extent.final := by
    rw [← hlast, lineAt_last]
  rw [htrim] at hfinal
  obtain ⟨blanks, after, hblanks, hbody, hend⟩ := exists_endColumn indent hfinal
  refine ⟨indent, blanks, after, hindent, hblanks, ?_, ?_⟩
  · rw [htrim, ← hbody, ← hline]
  · simp only [spanOf, hlast, if_true, hfirst, hcolumn, htrim]
    rw [hline, hend]
    rfl

theorem exists_spanOf_of_upper_eq_cons {extent : Extent} {line : Text} {middle : List Text}
    (hupper : extent.upper = line :: middle) (hfinal : extent.final.trim ≠ []) :
    ∃ indent body blanks after, Text.AllBlank indent ∧ Text.AllBlank blanks ∧
      line = indent ++ body ∧ extent.final = blanks ++ (covered extent.final.trim ++ after) ∧
      spanOf extent.lines extent.statement =
        { start := ⟨extent.before.length, Text.byteSize indent⟩
          stop := ⟨extent.before.length + extent.upper.length,
            Text.byteSize (blanks ++ covered extent.final.trim)⟩ } := by
  obtain ⟨indent, body, hindent, hline, hcolumn⟩ := exists_indentation line
  have hlast : extent.statement.last ≠ extent.statement.first := by
    intro heq
    have hnil := extent.upper_eq_nil_iff.mpr heq.symm
    simp [hupper] at hnil
  have hfirst : lineAt extent.lines extent.statement.first = line := by
    rw [lineAt, extent.getElem?_first, Extent.block, hupper]
    rfl
  obtain ⟨blanks, after, hblanks, hbody, hend⟩ := exists_endColumn [] hfinal
  refine ⟨indent, body, blanks, after, hindent, hblanks, hline, hbody, ?_⟩
  simp only [spanOf, hlast, if_false, hfirst, hcolumn, lineAt_last]
  rw [← List.nil_append extent.final, ← Text.byteSize_nil, hend]
  rfl

theorem exists_lines_eq_append {buffer : Buffer} {extent : Extent}
    (h : extent.lines = buffer.contents) :
    ∃ above upper final below, buffer.lines = above ++ (upper ++ final :: below) ∧
      above.map Line.content = extent.before ∧ upper.map Line.content = extent.upper ∧
      final.content = extent.final := by
  obtain ⟨above, rest, hlines, habove, hrest⟩ := List.map_eq_append_iff.mp h.symm
  obtain ⟨upper, rest, rfl, hupper, hrest⟩ := List.map_eq_append_iff.mp hrest
  obtain ⟨final, below, rfl, hfinal, -⟩ := List.map_eq_cons_iff.mp hrest
  exact ⟨above, upper, final, below, hlines, habove, hupper, hfinal⟩

section Holds

variable {text : Text} {extent : Extent} (hlines : extent.lines = (Buffer.ofText text).contents)
  (hfinal : extent.final.trim ≠ [])

include hlines hfinal

theorem exists_holds_of_upper_eq_nil (hupper : extent.upper = []) :
    ∃ part, (Buffer.ofText text).Holds (spanOf extent.lines extent.statement) part ∧
      '\n' ∉ part ∧ part.trim = covered extent.final.trim := by
  obtain ⟨above, upper, final, below, hbuffer, habove, hupperLines, hcontent⟩ :=
    exists_lines_eq_append hlines
  obtain rfl : upper = [] := by simpa [hupper] using hupperLines
  obtain ⟨indent, blanks, after, -, hblanks, hline, hspan⟩ :=
    exists_spanOf_of_upper_eq_nil hupper hfinal
  have hchain : Line.Chain (Buffer.ofText text).lines := Line.chain_split text
  rw [hbuffer] at hchain
  have hnewline : '\n' ∉ final.content := hchain.newline_not_mem final (by simp)
  refine ⟨blanks ++ covered extent.final.trim, ?_, ?_, ?_⟩
  · rw [hspan, ← habove, List.length_map]
    refine Buffer.holds_of_line (v := after) hbuffer ?_
    rw [hcontent, List.append_assoc, ← hline]
  · rw [hcontent, hline] at hnewline
    simp only [List.mem_append, not_or] at hnewline ⊢
    exact ⟨hnewline.2.1, hnewline.2.2.1⟩
  · rw [Text.trim_blank_append hblanks]
    exact Text.trim_eq_self (trimmed_covered (Text.trimmed_trim extent.final))

theorem exists_holds_of_upper_eq_cons {line : Text} {middle : List Text}
    (hupper : extent.upper = line :: middle) :
    ∃ part, (Buffer.ofText text).Holds (spanOf extent.lines extent.statement) part ∧
      (Line.split part).length = extent.upper.length + 1 ∧
      Line.joinTrimmed part =
        (extent.upper.map Text.trim).flatten ++ covered extent.final.trim := by
  obtain ⟨above, upper, final, below, hbuffer, habove, hupperLines, hcontent⟩ :=
    exists_lines_eq_append hlines
  obtain ⟨first, middle, rfl, rfl, rfl⟩ := List.map_eq_cons_iff.mp (hupperLines.trans hupper)
  obtain ⟨indent, body, blanks, after, hindent, hblanks, hfirst, hlast, hspan⟩ :=
    exists_spanOf_of_upper_eq_cons hupper hfinal
  have hchain : Line.Chain (above ++ (first :: middle ++ final :: below)) := by
    rw [← hbuffer]
    exact Line.chain_split text
  have hended : ∀ line ∈ above ++ first :: middle, line.Ended := by
    rw [← List.append_assoc] at hchain
    exact hchain.ended_of_mem (List.cons_ne_nil final below)
  have hbody : Line.Ended ⟨body, first.ending⟩ := by
    apply Line.Ended.of_append (u := indent)
    rw [← hfirst]
    exact hended first (by simp)
  have hmiddle : ∀ line ∈ middle, line.Ended := fun line hline => hended line (by simp [hline])
  have hstop : final.content = (blanks ++ covered extent.final.trim) ++ after := by
    rw [hcontent, List.append_assoc, ← hlast]
  have hnewline : '\n' ∉ blanks ++ covered extent.final.trim := by
    have hfinalLine := hchain.newline_not_mem final (by simp)
    rw [hstop] at hfinalLine
    exact fun hmem => hfinalLine (List.mem_append_left after hmem)
  have hsplit := Line.split_flatMap_text (.cons hbody (Line.chain_append_last hmiddle hnewline))
  have hholds := Buffer.holds_of_lines hbuffer hfirst hstop
  have htrimmed := trimmed_covered (Text.trimmed_trim extent.final)
  refine ⟨_, ?_, (congrArg List.length hsplit).trans ?_, ?_⟩
  · rw [hspan, ← habove, List.length_map, hupper, List.length_cons, List.length_map]
    exact hholds
  · simp [hupper]
  · rw [Line.joinTrimmed, hsplit]
    simp [hupper, hfirst, Text.trim_blank_append hindent, Text.trim_blank_append hblanks,
      Text.trim_eq_self htrimmed, Function.comp_def]

/-- What the span of a statement holds: as many lines as the statement has, and, once they are
trimmed and joined, the code of the upper lines and what is covered of the last one. -/
theorem exists_holds_spanOf :
    ∃ part, (Buffer.ofText text).Holds (spanOf extent.lines extent.statement) part ∧
      (Line.split part).length = extent.upper.length + 1 ∧
      Line.joinTrimmed part =
        (extent.upper.map Text.trim).flatten ++ covered extent.final.trim := by
  cases hupper : extent.upper with
  | nil =>
      obtain ⟨part, hholds, hnewline, htrim⟩ := exists_holds_of_upper_eq_nil hlines hfinal hupper
      refine ⟨part, hholds, ?_, ?_⟩
      · simp [Line.split_of_newline_not_mem hnewline]
      · rw [Line.joinTrimmed_of_newline_not_mem hnewline, htrim]
        rfl
  | cons line middle =>
      rw [← hupper]
      exact exists_holds_of_upper_eq_cons hlines hfinal hupper

end Holds

end LogTemplate.Formatter
