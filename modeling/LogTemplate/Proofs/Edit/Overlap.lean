import LogTemplate.Proofs.Edit.Pinning
import LogTemplate.Proofs.Edit.Reordering
import LogTemplate.Proofs.Source.Offset

/-!
Overlap seen in three ways. Positions stand in the order of their offsets, since a line that is
followed by another one ends before that one starts. So two spans overlap as positions exactly when
their bytes do, and exactly when the edits made from them are refused together.
-/

namespace LogTemplate

theorem Position.lt_or_eq_or_lt (p q : Position) : p < q ∨ p = q ∨ q < p := by
  obtain ⟨line, column⟩ := p
  obtain ⟨line', column'⟩ := q
  simp only [Position.lt_iff, Position.mk.injEq]
  omega

namespace Buffer

variable {buffer : Buffer} {p q : Position} {i j m n : Nat}

theorem lineStart_mono (h : i ≤ j) : buffer.lineStart i ≤ buffer.lineStart j := by
  rw [lineStart, lineStart, ← Nat.add_sub_of_le h, List.take_add, List.flatMap_append,
    Text.byteSize_append]
  exact Nat.le_add_right _ _

section Chain

variable (hchain : Line.Chain buffer.lines)

include hchain

theorem lineStop_lt_lineStart (hij : i < j) (hj : j < buffer.lineCount) :
    buffer.lineStop i < buffer.lineStart j := by
  have hi : i < buffer.lineCount := hij.trans hj
  have hline : buffer.lines[i]? = some buffer.lines[i] := List.getElem?_eq_getElem hi
  have hended := ended_of_lt hchain hline (by omega)
  have hsucc := lineStart_succ hline
  have hmono : buffer.lineStart (i + 1) ≤ buffer.lineStart j := lineStart_mono hij
  have hending : 0 < Text.byteSize buffer.lines[i].ending.text := by
    rw [hended.ending_text]
    split
    · decide
    · decide
  rw [Line.text, Text.byteSize_append] at hsucc
  rw [lineStop, lineAt_eq hline]
  omega

theorem Stands.lt_of_lt (hp : buffer.Stands p m) (hq : buffer.Stands q n) (h : p < q) : m < n := by
  rcases Position.lt_iff.mp h with hline | ⟨hline, hcolumn⟩
  · calc
      m ≤ buffer.lineStop p.line := hp.le_lineStop
      _ < buffer.lineStart q.line := lineStop_lt_lineStart hchain hline hq.line_lt
      _ ≤ n := by
        rw [hq.offset_eq]
        exact Nat.le_add_right _ _
  · rw [hp.offset_eq, hq.offset_eq, hline]
    exact Nat.add_lt_add_left hcolumn _

theorem Stands.lt_iff (hp : buffer.Stands p m) (hq : buffer.Stands q n) : p < q ↔ m < n := by
  refine ⟨hp.lt_of_lt hchain hq, fun h => ?_⟩
  rcases Position.lt_or_eq_or_lt p q with hlt | rfl | hgt
  · exact hlt
  · rw [hp.offset_eq, hq.offset_eq] at h
    exact absurd h (Nat.lt_irrefl _)
  · exact absurd (hq.lt_of_lt hchain hp hgt) h.asymm

theorem Stands.eq_iff (hp : buffer.Stands p m) (hq : buffer.Stands q n) : p = q ↔ m = n := by
  constructor
  · rintro rfl
    rw [hp.offset_eq, hq.offset_eq]
  · rintro rfl
    rcases Position.lt_or_eq_or_lt p q with hlt | heq | hgt
    · exact absurd (hp.lt_of_lt hchain hq hlt) (Nat.lt_irrefl _)
    · exact heq
    · exact absurd (hq.lt_of_lt hchain hp hgt) (Nat.lt_irrefl _)

end Chain

/-- The span is not empty, and its ends have these two offsets. -/
structure Spans (buffer : Buffer) (span : Span) (start stop : Nat) : Prop where
  start_eq : buffer.offset? span.start = .ok (some start)
  stop_eq : buffer.offset? span.stop = .ok (some stop)
  start_lt_stop : span.start < span.stop

section Spans

variable {a b : Span} {start stop start' stop' : Nat} (hchain : Line.Chain buffer.lines)

theorem Spans.stands_start (h : buffer.Spans a start stop) : buffer.Stands a.start start :=
  stands_of_offset? h.start_eq

theorem Spans.stands_stop (h : buffer.Spans a start stop) : buffer.Stands a.stop stop :=
  stands_of_offset? h.stop_eq

include hchain

theorem Spans.lt (h : buffer.Spans a start stop) : start < stop :=
  h.stands_start.lt_of_lt hchain h.stands_stop h.start_lt_stop

theorem Spans.overlaps_iff_lt (ha : buffer.Spans a start stop) (hb : buffer.Spans b start' stop') :
    a.overlaps b = true ↔ start < stop' ∧ start' < stop := by
  rw [Span.overlaps, Bool.and_eq_true, decide_eq_true_eq, decide_eq_true_eq,
    ha.stands_start.lt_iff hchain hb.stands_stop, hb.stands_start.lt_iff hchain ha.stands_stop]

theorem Spans.overlaps_iff_exists_byte (ha : buffer.Spans a start stop)
    (hb : buffer.Spans b start' stop') :
    a.overlaps b = true ↔
      ∃ n < buffer.text.byteSize, (start ≤ n ∧ n < stop) ∧ start' ≤ n ∧ n < stop' := by
  rw [ha.overlaps_iff_lt hchain hb]
  have hlt := ha.lt hchain
  have hlt' := hb.lt hchain
  have hstop : stop ≤ buffer.text.byteSize :=
    ha.stands_stop.le_lineStop.trans (lineStop_le_byteSize ha.stands_stop.line_lt)
  constructor
  · rintro ⟨h, h'⟩
    exact ⟨max start start', by omega, by omega, by omega⟩
  · rintro ⟨n, -, h, h'⟩
    omega

end Spans

end Buffer

namespace Edit

variable {e f : Edit} {edits : List Edit} {content : Text} {error : EditError}

theorem exists_overlapping_of_overlap? (h : overlap? edits = some error) :
    ∃ file start stop, error = .overlapping file start stop := by
  fun_induction overlap? edits with
  | case1 later earlier rest hlt => exact ⟨_, _, _, (Option.some.inj h).symm⟩
  | case2 later earlier rest hlt ih => exact ih h
  | case3 => cases h

theorem accepted_or_overlapping (happlicable : ∀ edit ∈ edits, edit.Applicable content) :
    Accepted content edits ∨
      ∃ file start stop, applyAll content edits = .error (.overlapping file start stop) := by
  cases hoverlap : overlap? (backward edits) with
  | none => exact .inl (exists_applyAll_iff.mpr ⟨happlicable, hoverlap⟩)
  | some error =>
      have hforM : ((backward edits).forM fun edit => discard (edit.current content)) = .ok () := by
        apply forM_current_eq_ok_iff.mpr
        intro edit hedit
        exact exists_current_iff.mpr (happlicable edit ((backward_perm edits).mem_iff.mp hedit))
      obtain ⟨file, start, stop, rfl⟩ := exists_overlapping_of_overlap? hoverlap
      refine .inr ⟨file, start, stop, ?_⟩
      rw [applyAll, checkAll, hforM]
      simp [hoverlap, bind, Except.bind]

theorem accepted_pair_iff (he : e.Applicable content) (hf : f.Applicable content)
    (hlt : e.start < e.stop) (hlt' : f.start < f.stop) : Accepted content [e, f] ↔ Apart e f := by
  have happlicable : ∀ edit ∈ [e, f], edit.Applicable content := by simp [he, hf]
  have hyields : Apart e f → Yields e f := by
    intro hapart hstart
    rw [Apart] at hapart
    omega
  rw [accepted_iff, List.pairwise_pair, List.pairwise_pair]
  exact ⟨fun h => h.2.1, fun h => ⟨happlicable, h, hyields h⟩⟩

theorem exists_pin_of_spans {buffer : Buffer} {span : Span} {start stop : Nat} (file : Path)
    (replacement : Text) (h : buffer.Spans span start stop) (hle : start ≤ stop) :
    ∃ edit, pin file buffer span replacement = .ok edit ∧ edit.start = start ∧ edit.stop = stop ∧
      edit.Applicable buffer.text := by
  obtain ⟨found, hfound⟩ := (Buffer.exists_slice?_of_offset? h.start_eq h.stop_eq).mpr hle
  refine ⟨replacing file start stop replacement found, ?_, rfl, rfl, ?_⟩
  · exact pin_eq_ok_iff.mpr ⟨start, stop, found, h.start_eq, h.stop_eq, hfound, rfl⟩
  · exact ⟨inRange_iff.mpr ⟨found, hfound⟩, found, hfound, .inr (Expected.admits_ofText found)⟩

end Edit

namespace Buffer

open Edit

/-- Positions have the order of their offsets. Two spans overlap if and only if they have a byte in
common, and if and only if the edits made from them cannot be applied together because they
overlap. -/
theorem positions_ordered_as_offsets (source : Text) :
    (∀ p q m n, (ofText source).offset? p = .ok (some m) →
        (ofText source).offset? q = .ok (some n) →
        (p < q ↔ m < n) ∧ (p = q ↔ m = n)) ∧
      ∀ a b start stop start' stop',
        (ofText source).Spans a start stop → (ofText source).Spans b start' stop' →
        (a.overlaps b = true ↔
          ∃ n < source.byteSize, (start ≤ n ∧ n < stop) ∧ start' ≤ n ∧ n < stop') ∧
        ∀ file file' replacement replacement', ∃ e f,
          pin file (ofText source) a replacement = .ok e ∧ e.start = start ∧ e.stop = stop ∧
          pin file' (ofText source) b replacement' = .ok f ∧ f.start = start' ∧ f.stop = stop' ∧
          (a.overlaps b = true ↔ ∃ file start stop,
            applyAll source [e, f] = .error (.overlapping file start stop)) ∧
          (a.overlaps b = false ↔ Accepted source [e, f]) := by
  have hchain : Line.Chain (ofText source).lines := Line.chain_split source
  refine ⟨?_, ?_⟩
  · intro p q m n hp hq
    have hp := stands_of_offset? hp
    have hq := stands_of_offset? hq
    exact ⟨hp.lt_iff hchain hq, hp.eq_iff hchain hq⟩
  · intro a b start stop start' stop' ha hb
    have hbyte := ha.overlaps_iff_exists_byte hchain hb
    have hlt := ha.lt hchain
    have hlt' := hb.lt hchain
    rw [text_ofText] at hbyte
    refine ⟨hbyte, ?_⟩
    intro file file' replacement replacement'
    obtain ⟨e, he, rfl, rfl, happlicable⟩ := exists_pin_of_spans file replacement ha hlt.le
    obtain ⟨f, hf, rfl, rfl, happlicable'⟩ := exists_pin_of_spans file' replacement' hb hlt'.le
    rw [text_ofText] at happlicable happlicable'
    have haccepted : a.overlaps b = false ↔ Accepted source [e, f] := by
      rw [accepted_pair_iff happlicable happlicable' hlt hlt', Apart, ← Bool.not_eq_true,
        ha.overlaps_iff_lt hchain hb]
      omega
    refine ⟨e, f, he, rfl, rfl, hf, rfl, rfl, ?_, haccepted⟩
    constructor
    · intro hoverlaps
      apply (accepted_or_overlapping (by simp [happlicable, happlicable'])).resolve_left
      intro h
      rw [haccepted.mpr h] at hoverlaps
      cases hoverlaps
    · rintro ⟨_, _, _, herror⟩
      by_contra hnot
      obtain ⟨out, results, hok⟩ := haccepted.mp (Bool.not_eq_true _ ▸ hnot)
      rw [herror] at hok
      cases hok

/-- Lines of which the first one ends with two bytes. -/
def twoMarksText : Text :=
  "aé\r\nb\nc".toList

/-- The end of a line and the start of the next one are two places: the span up to the first is
apart from the one between them, and that one overlaps the span from the second. -/
theorem overlaps_twoMarksText :
    let upper : Span := ⟨⟨0, 1⟩, ⟨0, 3⟩⟩
    let mark : Span := ⟨⟨0, 3⟩, ⟨1, 1⟩⟩
    let lower : Span := ⟨⟨1, 0⟩, ⟨2, 1⟩⟩
    (ofText twoMarksText).Spans upper 1 3 ∧ (ofText twoMarksText).Spans mark 3 6 ∧
      (ofText twoMarksText).Spans lower 5 8 ∧
      upper.overlaps mark = false ∧ mark.overlaps lower = true ∧
      ∃ e f, pin ⟨"A.java".toList⟩ (ofText twoMarksText) mark [] = .ok e ∧
        pin ⟨"A.java".toList⟩ (ofText twoMarksText) lower [] = .ok f ∧
        ∃ file start stop,
          applyAll twoMarksText [e, f] = .error (.overlapping file start stop) := by
  intro upper mark lower
  have hupper : (ofText twoMarksText).Spans upper 1 3 :=
    ⟨by decide, by decide, by decide⟩
  have hmark : (ofText twoMarksText).Spans mark 3 6 :=
    ⟨by decide, by decide, by decide⟩
  have hlower : (ofText twoMarksText).Spans lower 5 8 :=
    ⟨by decide, by decide, by decide⟩
  have hoverlaps : mark.overlaps lower = true := by decide
  obtain ⟨-, hspans⟩ := positions_ordered_as_offsets twoMarksText
  obtain ⟨e, f, he, -, -, hf, -, -, herror, -⟩ := (hspans mark lower 3 6 5 8 hmark hlower).2
    ⟨"A.java".toList⟩ ⟨"A.java".toList⟩ [] []
  exact ⟨hupper, hmark, hlower, by decide, hoverlaps, e, f, he, hf, herror.mp hoverlaps⟩

end Buffer

end LogTemplate
