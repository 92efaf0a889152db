import LogTemplate.Text.Basic
import Mathlib.Data.Option.Basic

namespace LogTemplate.Text

@[simp]
theorem byteSize_eq_zero_iff {cs : Text} : byteSize cs = 0 ↔ cs = [] := by
  cases cs with
  | nil => simp
  | cons c cs =>
      have hpos := c.utf8Size_pos
      simp only [byteSize_cons, reduceCtorEq, iff_false]
      omega

theorem length_le_byteSize (cs : Text) : cs.length ≤ cs.byteSize := by
  induction cs with
  | nil => exact Nat.le_refl 0
  | cons c cs ih =>
      have hpos := c.utf8Size_pos
      rw [List.length_cons, byteSize_cons]
      omega

theorem prefix_of_byteSize_le {u v cs : Text} (hu : u <+: cs) (hv : v <+: cs)
    (h : byteSize u ≤ byteSize v) : u <+: v := by
  rcases List.prefix_or_prefix_of_prefix hu hv with hwithin | ⟨extra, rfl⟩
  · exact hwithin
  · have hextra : extra = [] := by
      rw [← byteSize_eq_zero_iff]
      rw [byteSize_append] at h
      omega
    simp [hextra]

theorem splitFrom_byteSize_append (u v : Text) : splitFrom (byteSize u) (u ++ v) = (u, v) := by
  induction u with
  | nil => simp [splitFrom]
  | cons c u ih =>
      have hpos := c.utf8Size_pos
      obtain ⟨n, hn⟩ : ∃ n, byteSize (c :: u) = n + 1 := by
        refine ⟨byteSize (c :: u) - 1, ?_⟩
        rw [byteSize_cons]
        omega
      have hrest : n + 1 - c.utf8Size = byteSize u := by
        rw [byteSize_cons] at hn
        omega
      rw [hn, List.cons_append, splitFrom, hrest, ih]

theorem splitAt?_eq_some_iff {n : Nat} {cs u v : Text} :
    splitAt? n cs = some (u, v) ↔ cs = u ++ v ∧ byteSize u = n := by
  constructor
  · intro h
    simp only [splitAt?] at h
    split at h
    · rename_i hsize
      have hparts : splitFrom n cs = (u, v) := Option.some.inj h
      have happend := splitFrom_append n cs
      rw [hparts] at happend hsize
      exact ⟨happend.symm, hsize⟩
    · simp at h
  · rintro ⟨rfl, rfl⟩
    simp [splitAt?, splitFrom_byteSize_append]

theorem isBoundary_iff {n : Nat} {cs : Text} :
    isBoundary n cs = true ↔ ∃ u v, cs = u ++ v ∧ byteSize u = n := by
  rw [isBoundary, Option.isSome_iff_exists]
  constructor
  · rintro ⟨⟨u, v⟩, h⟩
    exact ⟨u, v, splitAt?_eq_some_iff.mp h⟩
  · rintro ⟨u, v, h⟩
    exact ⟨(u, v), splitAt?_eq_some_iff.mpr h⟩

theorem isBoundary_add_iff {u part v : Text} {n : Nat} (h : n ≤ part.byteSize) :
    isBoundary (u.byteSize + n) (u ++ (part ++ v)) = true ↔ isBoundary n part = true := by
  rw [isBoundary_iff, isBoundary_iff]
  constructor
  · rintro ⟨x, y, htext, hsize⟩
    obtain ⟨w, rfl⟩ : u <+: x :=
      prefix_of_byteSize_le ⟨part ++ v, rfl⟩ ⟨y, htext.symm⟩ (by omega)
    rw [List.append_assoc] at htext
    have hrest : part ++ v = w ++ y := List.append_cancel_left htext
    have hw : byteSize w = n := by
      rw [byteSize_append] at hsize
      omega
    obtain ⟨z, hz⟩ : w <+: part :=
      prefix_of_byteSize_le ⟨y, hrest.symm⟩ ⟨v, rfl⟩ (by omega)
    exact ⟨w, z, hz.symm, hw⟩
  · rintro ⟨w, z, rfl, rfl⟩
    exact ⟨u ++ w, z ++ v, by simp, byteSize_append u w⟩

/-- A slice exists exactly when its offsets are the sizes of two initial parts, the first within
the second; it is what the second has more. -/
theorem slice?_eq_some_iff {start stop : Nat} {cs part : Text} :
    slice? start stop cs = some part ↔
      ∃ u v, cs = u ++ (part ++ v) ∧ byteSize u = start ∧ byteSize (u ++ part) = stop := by
  simp only [slice?, Option.bind_eq_bind, Option.bind_eq_some_iff, Option.guard_eq_some']
  constructor
  · rintro ⟨-, hle, ⟨u, rest⟩, hstart, ⟨middle, v⟩, hstop, hpart⟩
    obtain rfl : middle = part := Option.some.inj hpart
    obtain ⟨rfl, rfl⟩ := splitAt?_eq_some_iff.mp hstart
    obtain ⟨rfl, hsize⟩ := splitAt?_eq_some_iff.mp hstop
    refine ⟨u, v, rfl, rfl, ?_⟩
    rw [byteSize_append]
    omega
  · rintro ⟨u, v, rfl, rfl, rfl⟩
    rw [byteSize_append, Nat.add_sub_cancel_left]
    exact ⟨(), Nat.le_add_right _ _, (u, part ++ v), splitAt?_eq_some_iff.mpr ⟨rfl, rfl⟩,
      (part, v), splitAt?_eq_some_iff.mpr ⟨rfl, rfl⟩, rfl⟩

theorem byteSize_of_slice? {start stop : Nat} {cs part : Text}
    (h : slice? start stop cs = some part) : start + part.byteSize = stop := by
  obtain ⟨u, v, -, rfl, rfl⟩ := slice?_eq_some_iff.mp h
  rw [byteSize_append]

theorem le_of_slice? {start stop : Nat} {cs part : Text} (h : slice? start stop cs = some part) :
    start ≤ stop := by
  have hsize := byteSize_of_slice? h
  omega

theorem exists_slice?_iff {start stop : Nat} {cs : Text} :
    (∃ part, slice? start stop cs = some part) ↔
      start ≤ stop ∧ stop ≤ cs.byteSize ∧ isBoundary start cs = true ∧
        isBoundary stop cs = true := by
  constructor
  · rintro ⟨part, hpart⟩
    obtain ⟨u, v, rfl, rfl, rfl⟩ := slice?_eq_some_iff.mp hpart
    refine ⟨?_, ?_, isBoundary_iff.mpr ⟨u, part ++ v, rfl, rfl⟩,
      isBoundary_iff.mpr ⟨u ++ part, v, (List.append_assoc u part v).symm, rfl⟩⟩
    · exact le_of_slice? hpart
    · rw [byteSize_append, byteSize_append, byteSize_append]
      omega
  · rintro ⟨hle, -, hstart, hstop⟩
    obtain ⟨u, rest, hu, rfl⟩ := isBoundary_iff.mp hstart
    obtain ⟨w, v, hw, rfl⟩ := isBoundary_iff.mp hstop
    obtain ⟨part, rfl⟩ := prefix_of_byteSize_le ⟨rest, hu.symm⟩ ⟨v, hw.symm⟩ hle
    exact ⟨part, slice?_eq_some_iff.mpr ⟨u, v, by rw [hw, List.append_assoc], rfl, rfl⟩⟩

theorem slice?_self {n : Nat} {cs : Text} (h : isBoundary n cs = true) :
    slice? n n cs = some [] := by
  obtain ⟨u, v, rfl, rfl⟩ := isBoundary_iff.mp h
  exact slice?_eq_some_iff.mpr ⟨u, v, rfl, rfl, by simp⟩

theorem slice?_append {start middle stop : Nat} {cs x y : Text}
    (hx : slice? start middle cs = some x) (hy : slice? middle stop cs = some y) :
    slice? start stop cs = some (x ++ y) := by
  obtain ⟨u, rest, hcs, hstart, hmiddle⟩ := slice?_eq_some_iff.mp hx
  obtain ⟨u', v, hcs', hmiddle', hstop⟩ := slice?_eq_some_iff.mp hy
  have hsame : (u ++ x, rest) = (u', y ++ v) := by
    rw [← splitFrom_byteSize_append (u ++ x) rest, ← splitFrom_byteSize_append u' (y ++ v), hmiddle,
      hmiddle', ← hcs', hcs, List.append_assoc]
  obtain ⟨rfl, rfl⟩ := Prod.mk.inj hsame
  exact slice?_eq_some_iff.mpr ⟨u, v, by simp [hcs], hstart, by simpa using hstop⟩

end LogTemplate.Text
