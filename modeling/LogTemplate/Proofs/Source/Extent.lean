import LogTemplate.Proofs.Text.Trim
import LogTemplate.Source.Statement
import Mathlib.Data.List.TakeWhile

/-!
The lines that a statement takes up. The statement around a line is a block of lines: its code is
the block without the blanks around its lines, only its last line can hold a semicolon, and no line
of it above the trigger holds a semicolon or a brace.
-/

namespace LogTemplate.Statement

/-- The block of lines of a statement in a source: those above its last line, and its last line. -/
structure Extent where
  before : List Text
  upper : List Text
  final : Text
  after : List Text
  semicolon_not_mem : ∀ line ∈ upper, ';' ∉ line

namespace Extent

def lines (extent : Extent) : List Text :=
  extent.before ++ (extent.upper ++ extent.final :: extent.after)

def block (extent : Extent) : List Text :=
  extent.upper ++ [extent.final]

def statement (extent : Extent) : Statement where
  code := (extent.block.map Text.trim).flatten
  first := extent.before.length
  last := extent.before.length + extent.upper.length

theorem getElem?_last (extent : Extent) :
    extent.lines[extent.statement.last]? = some extent.final := by
  simp only [statement, lines]
  rw [List.getElem?_append_right (by omega), Nat.add_sub_cancel_left,
    List.getElem?_append_right (by omega), Nat.sub_self]
  rfl

theorem getElem?_first (extent : Extent) :
    extent.lines[extent.statement.first]? = extent.block.head? := by
  simp only [statement, lines, block]
  rw [List.getElem?_append_right (by omega), Nat.sub_self]
  cases extent.upper with
  | nil => rfl
  | cons line upper => rfl

theorem take_drop_lines (extent : Extent) :
    (extent.lines.drop extent.statement.first).take
      (extent.statement.last - extent.statement.first) = extent.upper := by
  simp only [statement, lines]
  rw [List.drop_left, Nat.add_sub_cancel_left, List.take_left]

theorem upper_eq_nil_iff (extent : Extent) :
    extent.upper = [] ↔ extent.statement.first = extent.statement.last := by
  rw [← List.length_eq_zero_iff]
  simp only [statement]
  omega

theorem semicolon_mem_final (extent : Extent) (h : ';' ∈ extent.statement.code) :
    ';' ∈ extent.final := by
  simp only [statement, block, List.mem_flatten, List.mem_map, List.mem_append,
    List.mem_singleton] at h
  obtain ⟨_, ⟨line, hline, rfl⟩, hmem⟩ := h
  rw [Text.mem_trim_iff (by decide)] at hmem
  rcases hline with hline | rfl
  · exact absurd hmem (extent.semicolon_not_mem line hline)
  · exact hmem

theorem trimmed_code (extent : Extent) : Text.Trimmed extent.statement.code := by
  apply Text.trimmed_flatten
  intro line hline
  obtain ⟨source, -, rfl⟩ := List.mem_map.mp hline
  exact Text.trimmed_trim source

end Extent

theorem semicolon_not_mem_of_not_closes {line : Text} (h : closes line = false) : ';' ∉ line := by
  intro hmem
  have hclose : closes line = true := List.any_eq_true.mpr ⟨';', hmem, by decide⟩
  simp [hclose] at h

theorem takeIn_cons_of_stop {code line : Text} (lines : List Text)
    (h : ((code ++ line.trim).isEmpty || (code ++ line.trim).contains ';') = true) :
    takeIn code (line :: lines) = (code ++ line.trim, 1) := by
  simp only [takeIn, h, if_true]

theorem takeIn_cons_of_go {code line : Text} (lines : List Text)
    (h : ¬((code ++ line.trim).isEmpty || (code ++ line.trim).contains ';') = true) :
    takeIn code (line :: lines) =
      ((takeIn (code ++ line.trim) lines).1, (takeIn (code ++ line.trim) lines).2 + 1) := by
  simp only [takeIn, h]
  rfl

theorem exists_takeIn (code : Text) {lines : List Text} (h : lines ≠ []) :
    ∃ upper final after, lines = upper ++ final :: after ∧
      takeIn code lines = (code ++ ((upper ++ [final]).map Text.trim).flatten, upper.length + 1) ∧
      (∀ line ∈ upper, ';' ∉ line) ∧
      ((takeIn code lines).1 ≠ [] → code = [] →
        ∀ line, (upper ++ [final]).head? = some line → line.trim ≠ []) := by
  induction lines generalizing code with
  | nil => exact absurd rfl h
  | cons line lines ih =>
      by_cases hstop : ((code ++ line.trim).isEmpty || (code ++ line.trim).contains ';') = true
      · have htake := takeIn_cons_of_stop lines hstop
        refine ⟨[], line, lines, rfl, by simpa using htake, by simp, ?_⟩
        intro hne hcode first hfirst
        obtain rfl : line = first := by simpa using hfirst
        rw [htake, hcode] at hne
        simpa using hne
      · have htake := takeIn_cons_of_go lines hstop
        have hclear : (code ++ line.trim).isEmpty = false ∧ ';' ∉ code ++ line.trim := by
          simpa using hstop
        have hline : ';' ∉ line := by
          rw [← Text.mem_trim_iff (by decide)]
          exact fun hmem => hclear.2 (List.mem_append_right _ hmem)
        have hhead : code = [] → line.trim ≠ [] := by
          rintro rfl hblank
          simp [hblank] at hclear
        cases lines with
        | nil =>
            refine ⟨[], line, [], rfl, by simp [takeIn], by simp, ?_⟩
            intro _ hcode first hfirst
            obtain rfl : line = first := by simpa using hfirst
            exact hhead hcode
        | cons next lines =>
            obtain ⟨upper, final, after, hlines, heq, hupper, -⟩ :=
              ih (code ++ line.trim) (List.cons_ne_nil next lines)
            refine ⟨line :: upper, final, after, by simp [hlines], ?_, ?_, ?_⟩
            · rw [htake, heq]
              simp
            · intro other hother
              rcases List.mem_cons.mp hother with rfl | hother
              · exact hline
              · exact hupper other hother
            · intro _ hcode first hfirst
              obtain rfl : line = first := by simpa using hfirst
              exact hhead hcode

theorem exists_above (lines : List Text) (trigger : Nat) :
    ∃ before near, lines.take trigger = before ++ near ∧
      (∀ line ∈ near, closes line = false) ∧
      above lines trigger = (near.map Text.trim).reverse := by
  let near := (lines.take trigger).reverse.takeWhile fun line => !closes line
  let before := (lines.take trigger).reverse.dropWhile fun line => !closes line
  refine ⟨before.reverse, near.reverse, ?_, ?_, ?_⟩
  · rw [← List.reverse_append, List.takeWhile_append_dropWhile, List.reverse_reverse]
  · intro line hline
    simpa using List.mem_takeWhile_imp (List.mem_reverse.mp hline)
  · rw [above, List.map_reverse, List.reverse_reverse]

theorem exists_firstLine (count : Nat) (near : List Text) :
    ∃ blank rest, near = blank ++ rest ∧ (∀ line ∈ blank, line.trim = []) ∧
      (∀ line, rest.head? = some line → line.trim ≠ []) ∧
      firstLine (count + near.length) (count + near.length) (near.map Text.trim).reverse =
        count + blank.length := by
  rw [firstLine, List.reverse_reverse]
  cases hfind : (near.map Text.trim).findIdx? fun line => !line.isEmpty with
  | none =>
      refine ⟨near, [], by simp, ?_, by simp, rfl⟩
      intro line hline
      have hempty := List.findIdx?_eq_none_iff.mp hfind line.trim (List.mem_map_of_mem hline)
      simpa using hempty
  | some index =>
      obtain ⟨hlt, hhit, hmiss⟩ := List.findIdx?_eq_some_iff_getElem.mp hfind
      rw [List.length_map] at hlt
      refine ⟨near.take index, near.drop index, (List.take_append_drop index near).symm, ?_, ?_, ?_⟩
      · intro line hline
        obtain ⟨j, hj, rfl⟩ := List.mem_iff_getElem.mp hline
        have hj' : j < index := by
          rw [List.length_take] at hj
          omega
        simpa using hmiss j hj'
      · intro line hline
        rw [List.head?_drop, List.getElem?_eq_getElem hlt] at hline
        obtain rfl := Option.some.inj hline
        simpa using hhit
      · simp only [List.length_reverse, List.length_map, List.length_take]
        omega

/-- The lines of the statement around a trigger: `near` above the trigger, and from the trigger on
`upper` and `final`. -/
theorem exists_locate_eq {lines : List Text} {trigger : Nat} (h : trigger < lines.length) :
    ∃ before near upper final after,
      lines = before ++ (near ++ upper ++ final :: after) ∧
      before.length + near.length = trigger ∧
      (∀ line ∈ near, closes line = false) ∧ (∀ line ∈ upper, ';' ∉ line) ∧
      locate lines trigger =
        { code := ((near ++ upper ++ [final]).map Text.trim).flatten
          first := before.length
          last := before.length + (near ++ upper).length } ∧
      ((locate lines trigger).code ≠ [] →
        ∀ line, (near ++ upper ++ [final]).head? = some line → line.trim ≠ []) := by
  obtain ⟨before, above, htake, habove, haboveEq⟩ := exists_above lines trigger
  obtain ⟨blank, near, hsplit, hblank, hnear, hfirst⟩ := exists_firstLine before.length above
  have hdrop : lines.drop trigger ≠ [] := by simpa using h
  obtain ⟨upper, final, after, hlines, htaken, hupper, hhead⟩ :=
    exists_takeIn (Statement.above lines trigger).reverse.flatten hdrop
  have hcount : before.length + above.length = trigger := by
    rw [← List.length_append, ← htake, List.length_take]
    omega
  have hlength : blank.length + near.length = above.length := by
    rw [hsplit, List.length_append]
  have hcode : (Statement.above lines trigger).reverse.flatten = (near.map Text.trim).flatten := by
    have hnil : (blank.map Text.trim).flatten = [] := by simpa using hblank
    rw [haboveEq, List.reverse_reverse, hsplit, List.map_append, List.flatten_append, hnil,
      List.nil_append]
  have hfirstLine : firstLine trigger (min trigger lines.length) (Statement.above lines trigger) =
      (before ++ blank).length := by
    have hmin : min trigger lines.length = before.length + above.length := by omega
    rw [hmin, haboveEq, ← hcount, hfirst, List.length_append]
  refine ⟨before ++ blank, near, upper, final, after, ?_, ?_, ?_, hupper, ?_, ?_⟩
  · rw [← List.take_append_drop trigger lines, htake, hlines, hsplit]
    simp
  · rw [List.length_append]
    omega
  · intro line hline
    exact habove line (by simp [hsplit, hline])
  · simp only [locate, htaken, hfirstLine]
    rw [hcode]
    simp only [List.map_append, List.flatten_append, List.append_assoc, List.length_append,
      Statement.mk.injEq, true_and]
    omega
  · intro hne line hline
    cases near with
    | nil => exact hhead hne (by simpa using hcode) line (by simpa using hline)
    | cons other near =>
        obtain rfl : other = line := by simpa using hline
        exact hnear other rfl

structure Surrounds (extent : Extent) (lines : List Text) (trigger : Nat) : Prop where
  lines_eq : extent.lines = lines
  statement_eq : extent.statement = locate lines trigger
  first_le : extent.statement.first ≤ trigger
  le_last : trigger ≤ extent.statement.last
  open_above : ∀ index line, extent.statement.first ≤ index → index < trigger →
    lines[index]? = some line → closes line = false
  head_not_blank : extent.statement.code ≠ [] →
    ∀ line, extent.block.head? = some line → line.trim ≠ []

theorem exists_surrounds {lines : List Text} {trigger : Nat} (h : trigger < lines.length) :
    ∃ extent, Surrounds extent lines trigger := by
  obtain ⟨before, near, upper, final, after, hlines, hcount, hnear, hupper, hlocate, hhead⟩ :=
    exists_locate_eq h
  have hclear : ∀ line ∈ near ++ upper, ';' ∉ line := by
    intro line hline
    rcases List.mem_append.mp hline with hline | hline
    · exact semicolon_not_mem_of_not_closes (hnear line hline)
    · exact hupper line hline
  have hstatement : (⟨before, near ++ upper, final, after, hclear⟩ : Extent).statement =
      locate lines trigger := hlocate.symm
  refine ⟨⟨before, near ++ upper, final, after, hclear⟩, hlines.symm, hstatement, ?_, ?_, ?_, ?_⟩
  · simp only [Extent.statement]
    omega
  · simp only [Extent.statement, List.length_append]
    omega
  · intro index line hle hlt hget
    simp only [Extent.statement] at hle
    have hlength : index - before.length < near.length := by omega
    rw [hlines, List.append_assoc near, List.getElem?_append_right hle,
      List.getElem?_append_left hlength] at hget
    exact hnear line (List.mem_of_getElem? hget)
  · rw [hstatement]
    exact hhead

end LogTemplate.Statement
