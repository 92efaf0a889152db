import LogTemplate.Proofs.Delimiter.Group
import LogTemplate.Proofs.Delimiter.Reader
import LogTemplate.Proofs.Text.Cut
import LogTemplate.Proofs.Text.Utf8

namespace LogTemplate

namespace Text

/-- A character of one byte starts at byte `n`. -/
structure OneByteAt (n : Nat) (cs : Text) : Prop where
  lt_byteSize : n < cs.byteSize
  boundary : cs.isBoundary n = true
  next_boundary : cs.isBoundary (n + 1) = true

theorem oneByteAt_append {c : Char} (u v : Text) (hc : c.utf8Size = 1) :
    OneByteAt u.byteSize (u ++ c :: v) := by
  refine ⟨?_, isBoundary_iff.mpr ⟨u, c :: v, rfl, rfl⟩, isBoundary_iff.mpr ⟨u ++ [c], v, ?_, ?_⟩⟩
  · rw [byteSize_append, byteSize_cons, hc]
    omega
  · rw [List.append_assoc, List.singleton_append]
  · rw [byteSize_append, byteSize_cons, hc, byteSize_nil]

end Text

namespace Delimiter

variable {text : Text} {c : Char} {i start : Nat}

theorem oneByteAt_endOfQuoted (h : endOfQuoted text start = some i) : text.OneByteAt i := by
  have htext := Text.splitFrom_append start text
  rcases hsplit : text.splitFrom start with ⟨before, after⟩
  rw [hsplit] at htext
  simp only [endOfQuoted, hsplit, Option.map_eq_some_iff] at h
  obtain ⟨⟨body, rest⟩, hliteral, rfl⟩ := h
  rw [← htext, ← append_of_splitLiteral hliteral, ← List.append_assoc, ← Text.byteSize_append]
  exact Text.oneByteAt_append (before ++ body) rest rfl

theorem exists_append_of_splitGroup {group rest : Text} (h : splitGroup text = some (group, rest)) :
    ∃ inner, group = inner ++ [')'] ∧ text = inner ++ ')' :: rest := by
  obtain ⟨inner, hinner⟩ := List.getLast?_eq_some_iff.mp (isGroup_of_splitGroup h).getLast?_eq
  refine ⟨inner, hinner, ?_⟩
  rw [append_of_splitGroup h, hinner, List.append_assoc, List.singleton_append]

theorem oneByteAt_endOfGroup (h : endOfGroup text = some i) : text.OneByteAt i := by
  rw [endOfGroup, Option.map_eq_some_iff] at h
  obtain ⟨⟨group, rest⟩, hgroup, rfl⟩ := h
  obtain ⟨inner, rfl, rfl⟩ := exists_append_of_splitGroup hgroup
  have hsize : (inner ++ [')']).byteSize - 1 = inner.byteSize := by
    rw [Text.byteSize_append]
    rfl
  change Text.OneByteAt ((inner ++ [')']).byteSize - 1) _
  rw [hsize]
  exact Text.oneByteAt_append inner rest rfl

theorem contains_utf8EncodeChar (hc : c.toNat < 0x80) (d : Char) :
    (String.utf8EncodeChar d).contains (UInt8.ofNat c.toNat) = decide (d = c) := by
  rw [List.contains_eq_mem, decide_eq_decide, ← List.count_pos_iff, Utf8.count_utf8EncodeChar hc]
  by_cases hd : d = c
  · simp [hd]
  · simp [hd]

/-- A byte below 128 is found at top level where its character is. -/
theorem findTopLevel_eq_cutAt (hc : c.toNat < 0x80) (text : Text) :
    findTopLevel text (UInt8.ofNat c.toNat) = (cutAt c text).map fun parts => parts.1.byteSize := by
  have hhit : (fun d => (String.utf8EncodeChar d).contains (UInt8.ofNat c.toNat)) =
      fun d => decide (d = c) := by
    funext d
    exact contains_utf8EncodeChar hc d
  rw [findTopLevel, hhit, cutAt]
  cases hfound : splitTopLevel (fun d => decide (d = c)) 0 text with
  | none => rfl
  | some parts =>
      obtain ⟨before, found⟩ := parts
      rw [splitTopLevel_eq_search] at hfound
      obtain ⟨-, -, -, d, rest, rfl, hd⟩ := search_eq_some_iff.mp hfound
      obtain rfl : d = c := of_decide_eq_true hd
      simp [Utf8.utf8EncodeChar_of_lt hc]

theorem utf8Size_of_lt (hc : c.toNat < 0x80) : c.utf8Size = 1 := by
  rw [← String.length_utf8EncodeChar, Utf8.utf8EncodeChar_of_lt hc]
  rfl

theorem exists_char_of_lt {b : UInt8} (hb : b.toNat < 0x80) :
    ∃ c : Char, c.toNat < 0x80 ∧ UInt8.ofNat c.toNat = b := by
  have hcode : (Char.ofNat b.toNat).toNat = b.toNat := Utf8.toNat_ofNat (.inl (by omega))
  exact ⟨Char.ofNat b.toNat, by rwa [hcode], by rw [hcode, UInt8.ofNat_toNat]⟩

theorem oneByteAt_findTopLevel {target : UInt8} (htarget : target.toNat < 0x80)
    (h : findTopLevel text target = some i) : text.OneByteAt i := by
  obtain ⟨c, hc, rfl⟩ := exists_char_of_lt htarget
  rw [findTopLevel_eq_cutAt hc, Option.map_eq_some_iff] at h
  obtain ⟨⟨before, rest⟩, hcut, rfl⟩ := h
  rw [(cutAt_eq_some_iff.mp hcut).1]
  exact Text.oneByteAt_append before rest (utf8Size_of_lt hc)

end Delimiter

end LogTemplate
