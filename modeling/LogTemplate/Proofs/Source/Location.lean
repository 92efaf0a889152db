import LogTemplate.Proofs.Source.Above

/-!
The statement around a line, described by its place in the source and without the walks that find
it. The description holds of one statement only, so it says all there is to say about a location.
-/

namespace LogTemplate.Statement

variable {lines : List Text} {trigger n m : Nat} {line code : Text} {statement : Statement}

/-- What the statement around the line `trigger` is. It is open up to that line, and what stands
before it up to the nearest line that closes a statement is blank. It goes on to the first line with
a semicolon or to the end of the source, unless it is empty. -/
structure IsAround (lines : List Text) (trigger : Nat) (statement : Statement) : Prop where
  first_le : statement.first ≤ trigger
  le_last : trigger ≤ statement.last
  last_lt : statement.last < lines.length
  code_eq : statement.code = (((lines.drop statement.first).take
    (statement.last + 1 - statement.first)).map Text.trim).flatten
  semicolon_not_mem : ∀ n line, statement.first ≤ n → n < statement.last →
    lines[n]? = some line → ';' ∉ line
  open_above : ∀ n line, statement.first ≤ n → n < trigger → lines[n]? = some line →
    ';' ∉ line ∧ '{' ∉ line ∧ '}' ∉ line
  blank_above : ∀ n line, n < statement.first → lines[n]? = some line →
    (∀ k other, n ≤ k → k < statement.first → lines[k]? = some other →
      ';' ∉ other ∧ '{' ∉ other ∧ '}' ∉ other) → line.trim = []
  first_not_blank : statement.code ≠ [] →
    ∃ line, lines[statement.first]? = some line ∧ line.trim ≠ []
  ended : statement.code ≠ [] → statement.last + 1 ≠ lines.length →
    ∃ line, lines[statement.last]? = some line ∧ ';' ∈ line
  of_empty : statement.code = [] → statement.first = trigger ∧ statement.last = trigger

theorem closes_eq_false_iff : closes line = false ↔ ';' ∉ line ∧ '{' ∉ line ∧ '}' ∉ line := by
  simp only [closes, List.any_eq_false, Bool.or_eq_true, beq_iff_eq, not_or]
  constructor
  · intro h
    exact ⟨fun hmem => (h _ hmem).1.1 rfl, fun hmem => (h _ hmem).1.2 rfl,
      fun hmem => (h _ hmem).2 rfl⟩
  · rintro ⟨hsemicolon, hopening, hclosing⟩ c hc
    refine ⟨⟨?_, ?_⟩, ?_⟩
    · rintro rfl
      exact hsemicolon hc
    · rintro rfl
      exact hopening hc
    · rintro rfl
      exact hclosing hc

theorem trim_mem_above (hlt : n < m) (hm : m ≤ lines.length) (hline : lines[n]? = some line)
    (hopen : ∀ k other, n ≤ k → k < m → lines[k]? = some other → closes other = false) :
    line.trim ∈ above lines m := by
  induction m with
  | zero => exact absurd hlt (Nat.not_lt_zero n)
  | succ m ih =>
      have hget : lines[m]? = some lines[m] := List.getElem?_eq_getElem hm
      have hlast := hopen m lines[m] (Nat.le_of_lt_succ hlt) (Nat.lt_succ_self m) hget
      rw [above_succ hget, if_neg (by simp [hlast])]
      by_cases hnm : n = m
      · subst hnm
        rw [hline] at hget
        rw [← Option.some.inj hget]
        exact List.mem_cons_self
      · apply List.mem_cons_of_mem
        apply ih (by omega) (by omega)
        exact fun k other hle hk => hopen k other hle (Nat.lt_succ_of_lt hk)

theorem takeIn_stops (h : (takeIn code lines).1 ≠ []) :
    (takeIn code lines).2 = lines.length ∨ ';' ∈ (takeIn code lines).1 := by
  induction lines generalizing code with
  | nil => exact .inl rfl
  | cons line lines ih =>
      by_cases hstop : ((code ++ line.trim).isEmpty || (code ++ line.trim).contains ';') = true
      · rw [takeIn_cons_of_stop _ hstop] at h ⊢
        refine .inr ?_
        simpa [h] using hstop
      · rw [takeIn_cons_of_go _ hstop] at h ⊢
        rcases ih h with hall | hmem
        · exact .inl (by rw [hall, List.length_cons])
        · exact .inr hmem

theorem prefix_takeIn (code : Text) (lines : List Text) : code <+: (takeIn code lines).1 := by
  by_cases h : lines = []
  · subst h
    exact List.prefix_rfl
  · obtain ⟨upper, final, after, -, htake, -⟩ := exists_takeIn code h
    rw [htake]
    exact List.prefix_append _ _

theorem takeIn_of_empty (h : (takeIn code lines).1 = []) : (takeIn code lines).2 ≤ 1 := by
  cases lines with
  | nil => exact Nat.zero_le 1
  | cons line lines =>
      by_cases hstop : ((code ++ line.trim).isEmpty || (code ++ line.trim).contains ';') = true
      · rw [takeIn_cons_of_stop _ hstop]
      · -- The code has begun, and nothing that has been taken in is dropped again.
        have hkept := prefix_takeIn (code ++ line.trim) lines
        rw [takeIn_cons_of_go _ hstop] at h
        rw [h, List.prefix_nil] at hkept
        simp [hkept] at hstop

theorem locate_of_empty (h : trigger < lines.length) (hcode : (locate lines trigger).code = []) :
    (locate lines trigger).first = trigger ∧ (locate lines trigger).last = trigger := by
  rw [locate_code] at hcode
  have habove : (above lines trigger).reverse.flatten = [] := by
    rw [← List.prefix_nil, ← hcode]
    exact prefix_takeIn _ _
  have hfirst : (locate lines trigger).first = trigger := by
    have hnone : (above lines trigger).reverse.findIdx? (fun line => !line.isEmpty) = none := by
      rw [List.findIdx?_eq_none_iff]
      intro line hline
      simp [List.flatten_eq_nil_iff.mp habove line hline]
    simp only [locate, firstLine, hnone]
  have hlast := last_succ h
  have htaken := takeIn_of_empty hcode
  have hpos : 0 < (takeIn (above lines trigger).reverse.flatten (lines.drop trigger)).2 :=
    takeIn_pos (by simpa using h)
  exact ⟨hfirst, by omega⟩

theorem locate_ended (h : trigger < lines.length) (hcode : (locate lines trigger).code ≠ []) :
    (locate lines trigger).last + 1 = lines.length ∨ ';' ∈ (locate lines trigger).code := by
  rw [locate_code] at hcode ⊢
  rcases takeIn_stops hcode with htaken | hmem
  · left
    rw [last_succ h, htaken, List.length_drop]
    omega
  · exact .inr hmem

namespace Extent

theorem block_eq (extent : Extent) :
    (extent.lines.drop extent.statement.first).take
      (extent.statement.last + 1 - extent.statement.first) = extent.block := by
  have hlength : extent.statement.last + 1 - extent.statement.first = extent.block.length := by
    simp only [statement, block, List.length_append, List.length_singleton]
    omega
  have hlines : extent.lines = extent.before ++ (extent.block ++ extent.after) := by
    simp [lines, block]
  rw [hlength, hlines]
  simp only [statement]
  rw [List.drop_left, List.take_left]

theorem mem_upper_of_getElem? (extent : Extent) (hle : extent.statement.first ≤ n)
    (hlt : n < extent.statement.last) (hline : extent.lines[n]? = some line) :
    line ∈ extent.upper := by
  simp only [statement, lines] at hle hlt hline
  rw [List.getElem?_append_right hle, List.getElem?_append_left (by omega)] at hline
  exact List.mem_of_getElem? hline

end Extent

theorem isAround_locate (h : trigger < lines.length) :
    IsAround lines trigger (locate lines trigger) := by
  obtain ⟨extent, hextent⟩ := exists_surrounds h
  have hstatement := hextent.statement_eq
  have hlines := hextent.lines_eq
  have hlast := extent.getElem?_last
  rw [hstatement, hlines] at hlast
  refine ⟨?_, ?_, ?_, ?_, ?_, ?_, ?_, ?_, ?_, locate_of_empty h⟩
  · exact hstatement ▸ hextent.first_le
  · exact hstatement ▸ hextent.le_last
  · exact (List.getElem?_eq_some_iff.mp hlast).1
  · rw [← hstatement, ← hlines, extent.block_eq]
    rfl
  · intro n line hle hlt hline
    rw [← hstatement] at hle hlt
    rw [← hlines] at hline
    exact extent.semicolon_not_mem line (extent.mem_upper_of_getElem? hle hlt hline)
  · intro n line hle hlt hline
    rw [← hstatement] at hle
    exact closes_eq_false_iff.mp (hextent.open_above n line hle hlt hline)
  · intro n line hlt hline hopen
    refine above_first h _ (trim_mem_above hlt ?_ hline ?_)
    · exact (first_le h).trans h.le
    · exact fun k other hle hk hother => closes_eq_false_iff.mpr (hopen k other hle hk hother)
  · intro hcode
    rw [← hstatement] at hcode ⊢
    have hfirst := extent.getElem?_first
    rw [hlines] at hfirst
    obtain ⟨line, hline⟩ : ∃ line, extent.block.head? = some line := by
      cases hupper : extent.upper with
      | nil => exact ⟨extent.final, by simp [Extent.block, hupper]⟩
      | cons line upper => exact ⟨line, by simp [Extent.block, hupper]⟩
    exact ⟨line, hfirst.trans hline, hextent.head_not_blank hcode line hline⟩
  · intro hcode hend
    have hmem := (locate_ended h hcode).resolve_left hend
    rw [← hstatement] at hmem
    exact ⟨extent.final, hlast, extent.semicolon_mem_final hmem⟩

namespace IsAround

variable {other : Statement}

theorem first_le_first (h : IsAround lines trigger statement) (h' : IsAround lines trigger other) :
    other.first ≤ statement.first := by
  apply Nat.le_of_not_lt
  intro hlt
  by_cases hcode : statement.code = []
  · have hfirst := (h.of_empty hcode).1
    have hle := h'.first_le
    omega
  · obtain ⟨line, hline, hblank⟩ := h.first_not_blank hcode
    apply hblank
    apply h'.blank_above statement.first line hlt hline
    intro k further hle hk hget
    exact h.open_above k further hle (Nat.lt_of_lt_of_le hk h'.first_le) hget

theorem last_le_last (h : IsAround lines trigger statement) (h' : IsAround lines trigger other)
    (hfirst : statement.first = other.first) : other.last ≤ statement.last := by
  apply Nat.le_of_not_lt
  intro hlt
  by_cases hcode : statement.code = []
  · obtain ⟨htrigger, hlast⟩ := h.of_empty hcode
    have hother : other.code ≠ [] := fun hempty => by
      have hend := (h'.of_empty hempty).2
      omega
    obtain ⟨line, hline, hblank⟩ := h'.first_not_blank hother
    have hempty := h.code_eq
    rw [hcode, hlast, htrigger, Nat.add_sub_cancel_left, List.take_one, List.head?_drop] at hempty
    rw [← hfirst, htrigger] at hline
    exact hblank (by simpa [hline] using hempty)
  · have hend : statement.last + 1 ≠ lines.length := by
      have hbound := h'.last_lt
      omega
    obtain ⟨line, hline, hmem⟩ := h.ended hcode hend
    refine h'.semicolon_not_mem statement.last line ?_ hlt hline hmem
    rw [← hfirst]
    exact h.first_le.trans h.le_last

theorem unique (h : IsAround lines trigger statement) (h' : IsAround lines trigger other) :
    statement = other := by
  have hfirst : statement.first = other.first :=
    Nat.le_antisymm (h'.first_le_first h) (h.first_le_first h')
  have hlast : statement.last = other.last :=
    Nat.le_antisymm (h'.last_le_last h hfirst.symm) (h.last_le_last h' hfirst)
  apply Statement.ext
  · rw [h.code_eq, h'.code_eq, hfirst, hlast]
  · exact hfirst
  · exact hlast

end IsAround

/-- The statement that is found around a line is the one of which the description holds. -/
theorem locate_eq_iff (h : trigger < lines.length) :
    locate lines trigger = statement ↔ IsAround lines trigger statement := by
  constructor
  · rintro rfl
    exact isAround_locate h
  · exact (isAround_locate h).unique

/-- A statement with a blank line before it and another one in it, and an open one at the end. -/
def gappedLines : List Text :=
  ["class A \x7b".toList, " ".toList, "  log.info(".toList, [], "\t\"a\" +".toList,
    " b); f();".toList, "g(".toList, [], "x".toList]

theorem isAround_gappedLines :
    IsAround gappedLines 4 ⟨"log.info(\"a\" +b); f();".toList, 2, 5⟩ ∧
      IsAround gappedLines 1 ⟨[], 1, 1⟩ ∧ IsAround gappedLines 7 ⟨"g(x".toList, 6, 8⟩ :=
  ⟨(locate_eq_iff (by decide)).mp (by decide), (locate_eq_iff (by decide)).mp (by decide),
    (locate_eq_iff (by decide)).mp (by decide)⟩

end LogTemplate.Statement
