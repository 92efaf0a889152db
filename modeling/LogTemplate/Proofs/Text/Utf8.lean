import LogTemplate.Text.Utf8
import Mathlib.Data.List.Basic

/-!
Reading UTF-8 loses nothing: the bytes that a text was read from are the bytes of that text, and the
bytes of a text are read as that text. A character is read from a lead byte and the continuation
bytes that it owes, and these are the bytes that the character is written with.
-/

namespace LogTemplate.Utf8

theorem toNat_ofNat {n : Nat} (h : n.isValidChar) : (Char.ofNat n).val.toNat = n := by
  rw [Char.ofNat, dif_pos h]
  rfl

/-- A state inside a character reads the bytes it owes: the first one within its bounds, the others
within those of any continuation byte. -/
theorem exists_of_decodeFrom_inside {read owed payload least greatest index : Nat} {bytes : Bytes}
    {text : Text}
    (h : decodeFrom (.inside read (owed + 1) payload least greatest) index bytes = .ok text) :
    ∃ b others rest text' index', bytes = b :: (others ++ rest) ∧ others.length = owed ∧
      least ≤ b.toNat ∧ b.toNat ≤ greatest ∧ (∀ c ∈ others, 0x80 ≤ c.toNat ∧ c.toNat ≤ 0xBF) ∧
      text = Char.ofNat ((b :: others).foldl (fun n c => n * 64 + c.toNat % 64) payload) :: text' ∧
      decodeFrom .start index' rest = .ok text' := by
  induction owed generalizing read payload least greatest bytes with
  | zero =>
      cases bytes with
      | nil => simp [decodeFrom] at h
      | cons b bytes =>
          rw [decodeFrom] at h
          split at h
          · rename_i hbounds
            cases hrest : decodeFrom .start (index + read + 1) bytes with
            | error fault => simp [hrest, Except.map] at h
            | ok text' =>
                simp only [hrest, Except.map, Nat.zero_add, Nat.le_refl, if_true] at h
                exact ⟨b, [], bytes, text', _, rfl, rfl, hbounds.1, hbounds.2, by simp,
                  (Except.ok.inj h).symm, hrest⟩
          · cases h
  | succ owed ih =>
      cases bytes with
      | nil => simp [decodeFrom] at h
      | cons b bytes =>
          rw [decodeFrom] at h
          split at h
          · rename_i hbounds
            rw [if_neg (by omega)] at h
            obtain ⟨c, others, rest, text', index', rfl, hlength, hleast, hgreatest, hothers, htext,
              hrest⟩ := ih h
            refine ⟨b, c :: others, rest, text', index', rfl, by simp [hlength], hbounds.1,
              hbounds.2, ?_, htext, hrest⟩
            intro d hd
            rcases List.mem_cons.mp hd with rfl | hd
            · exact ⟨hleast, hgreatest⟩
            · exact hothers d hd
          · cases h

theorem cases_of_lead? {b owed payload least greatest : Nat}
    (h : lead? b = some (owed, payload, least, greatest)) :
    (owed = 0 ∧ payload = b ∧ b < 0x80) ∨
      (owed = 1 ∧ payload = b - 0xC0 ∧ 0xC2 ≤ b ∧ b ≤ 0xDF ∧ 0x80 ≤ least ∧ greatest ≤ 0xBF) ∨
      (owed = 2 ∧ payload = b - 0xE0 ∧ 0xE0 ≤ b ∧ b ≤ 0xEF ∧ 0x80 ≤ least ∧ greatest ≤ 0xBF ∧
        (b = 0xE0 → 0xA0 ≤ least) ∧ (b = 0xED → greatest ≤ 0x9F)) ∨
      (owed = 3 ∧ payload = b - 0xF0 ∧ 0xF0 ≤ b ∧ b ≤ 0xF4 ∧ 0x80 ≤ least ∧ greatest ≤ 0xBF ∧
        (b = 0xF0 → 0x90 ≤ least) ∧ (b = 0xF4 → greatest ≤ 0x8F)) := by
  simp only [lead?] at h
  repeat' split at h
  all_goals
    simp only [Option.some.injEq, Prod.mk.injEq, reduceCtorEq] at h
  all_goals omega

theorem ofNat_eq_of_toNat {b : UInt8} {n : Nat} (h : n = b.toNat) : UInt8.ofNat n = b := by
  rw [h, UInt8.ofNat_toNat]

section Encode

variable {b c d e : UInt8}

theorem utf8EncodeChar_one (hb : b.toNat < 0x80) :
    String.utf8EncodeChar (Char.ofNat b.toNat) = [b] := by
  have hvalid : b.toNat.isValidChar := .inl (by omega)
  simp only [String.utf8EncodeChar, toNat_ofNat hvalid]
  rw [if_pos (by omega), UInt8.ofNat_toNat]

theorem utf8EncodeChar_two (hb : 0xC2 ≤ b.toNat) (hb' : b.toNat ≤ 0xDF)
    (hc : 0x80 ≤ c.toNat) (hc' : c.toNat ≤ 0xBF) :
    String.utf8EncodeChar (Char.ofNat ((b.toNat - 0xC0) * 64 + c.toNat % 64)) = [b, c] := by
  have hvalid : ((b.toNat - 0xC0) * 64 + c.toNat % 64).isValidChar := .inl (by omega)
  simp only [String.utf8EncodeChar, toNat_ofNat hvalid]
  rw [if_neg (by omega), if_pos (by omega), ofNat_eq_of_toNat (b := b) (by omega),
    ofNat_eq_of_toNat (b := c) (by omega)]

theorem utf8EncodeChar_three (hb : 0xE0 ≤ b.toNat) (hb' : b.toNat ≤ 0xEF)
    (hc : 0x80 ≤ c.toNat) (hc' : c.toNat ≤ 0xBF) (hlow : b.toNat = 0xE0 → 0xA0 ≤ c.toNat)
    (hhigh : b.toNat = 0xED → c.toNat ≤ 0x9F) (hd : 0x80 ≤ d.toNat) (hd' : d.toNat ≤ 0xBF) :
    String.utf8EncodeChar
      (Char.ofNat (((b.toNat - 0xE0) * 64 + c.toNat % 64) * 64 + d.toNat % 64)) = [b, c, d] := by
  have hvalid : (((b.toNat - 0xE0) * 64 + c.toNat % 64) * 64 + d.toNat % 64).isValidChar := by
    rw [Nat.isValidChar]
    omega
  simp only [String.utf8EncodeChar, toNat_ofNat hvalid]
  rw [if_neg (by omega), if_neg (by omega), if_pos (by omega),
    ofNat_eq_of_toNat (b := b) (by omega), ofNat_eq_of_toNat (b := c) (by omega),
    ofNat_eq_of_toNat (b := d) (by omega)]

theorem utf8EncodeChar_four (hb : 0xF0 ≤ b.toNat) (hb' : b.toNat ≤ 0xF4)
    (hc : 0x80 ≤ c.toNat) (hc' : c.toNat ≤ 0xBF) (hlow : b.toNat = 0xF0 → 0x90 ≤ c.toNat)
    (hhigh : b.toNat = 0xF4 → c.toNat ≤ 0x8F) (hd : 0x80 ≤ d.toNat) (hd' : d.toNat ≤ 0xBF)
    (he : 0x80 ≤ e.toNat) (he' : e.toNat ≤ 0xBF) :
    String.utf8EncodeChar
      (Char.ofNat ((((b.toNat - 0xF0) * 64 + c.toNat % 64) * 64 + d.toNat % 64) * 64 +
        e.toNat % 64)) = [b, c, d, e] := by
  have hvalid : ((((b.toNat - 0xF0) * 64 + c.toNat % 64) * 64 + d.toNat % 64) * 64 +
      e.toNat % 64).isValidChar := by
    rw [Nat.isValidChar]
    omega
  simp only [String.utf8EncodeChar, toNat_ofNat hvalid]
  rw [if_neg (by omega), if_neg (by omega), if_neg (by omega),
    ofNat_eq_of_toNat (b := b) (by omega), ofNat_eq_of_toNat (b := c) (by omega),
    ofNat_eq_of_toNat (b := d) (by omega), ofNat_eq_of_toNat (b := e) (by omega)]

end Encode

theorem exists_of_decodeFrom_start {index : Nat} {b : UInt8} {bytes : Bytes} {text : Text}
    (h : decodeFrom .start index (b :: bytes) = .ok text) :
    ∃ c text' rest index', text = c :: text' ∧ b :: bytes = String.utf8EncodeChar c ++ rest ∧
      decodeFrom .start index' rest = .ok text' := by
  rw [decodeFrom] at h
  split at h
  next => cases h
  next payload least greatest hlead =>
    obtain ⟨-, rfl, hb⟩ | ⟨howed, -⟩ | ⟨howed, -⟩ | ⟨howed, -⟩ := cases_of_lead? hlead
    · cases hrest : decodeFrom .start (index + 1) bytes with
      | error fault => simp [hrest, Except.map] at h
      | ok text' =>
          simp only [hrest, Except.map] at h
          exact ⟨_, text', bytes, _, (Except.ok.inj h).symm, by rw [utf8EncodeChar_one hb]; rfl,
            hrest⟩
    · cases howed
    · cases howed
    · cases howed
  next owed payload least greatest howed hlead =>
    rcases cases_of_lead? hlead with ⟨hzero, -⟩ | ⟨hone, hpayload, hb, hb', hleast, hgreatest⟩ |
      ⟨htwo, hpayload, hb, hb', hleast, hgreatest, hlow, hhigh⟩ |
      ⟨hthree, hpayload, hb, hb', hleast, hgreatest, hlow, hhigh⟩
    · exact absurd hzero howed
    · rw [hone, hpayload] at h
      obtain ⟨c, others, rest, text', index', rfl, hlength, hc, hc', -, htext, hrest⟩ :=
        exists_of_decodeFrom_inside h
      obtain rfl := List.length_eq_zero_iff.mp hlength
      refine ⟨_, text', rest, index', htext, ?_, hrest⟩
      rw [List.foldl_cons, List.foldl_nil, utf8EncodeChar_two hb hb' (by omega) (by omega)]
      rfl
    · rw [htwo, hpayload] at h
      obtain ⟨c, others, rest, text', index', rfl, hlength, hc, hc', hothers, htext, hrest⟩ :=
        exists_of_decodeFrom_inside h
      obtain ⟨d, rfl⟩ := List.length_eq_one_iff.mp hlength
      obtain ⟨hd, hd'⟩ := hothers d (by simp)
      refine ⟨_, text', rest, index', htext, ?_, hrest⟩
      simp only [List.foldl_cons, List.foldl_nil]
      rw [utf8EncodeChar_three hb hb' (by omega) (by omega) (by omega) (by omega) hd hd']
      rfl
    · rw [hthree, hpayload] at h
      obtain ⟨c, others, rest, text', index', rfl, hlength, hc, hc', hothers, htext, hrest⟩ :=
        exists_of_decodeFrom_inside h
      obtain ⟨d, e, rfl⟩ := List.length_eq_two.mp hlength
      obtain ⟨hd, hd'⟩ := hothers d (by simp)
      obtain ⟨he, he'⟩ := hothers e (by simp)
      refine ⟨_, text', rest, index', htext, ?_, hrest⟩
      simp only [List.foldl_cons, List.foldl_nil]
      rw [utf8EncodeChar_four hb hb' (by omega) (by omega) (by omega) (by omega) hd hd' he he']
      rfl

theorem toBytes_of_decodeFrom_start {index : Nat} {bytes : Bytes} {text : Text}
    (h : decodeFrom .start index bytes = .ok text) : text.toBytes = bytes := by
  induction text generalizing index bytes with
  | nil =>
      cases bytes with
      | nil => rfl
      | cons b bytes =>
          obtain ⟨c, text', rest, index', htext, -⟩ := exists_of_decodeFrom_start h
          cases htext
  | cons c text ih =>
      cases bytes with
      | nil => simp [decodeFrom] at h
      | cons b bytes =>
          obtain ⟨c', text', rest, index', htext, hbytes, hrest⟩ := exists_of_decodeFrom_start h
          obtain ⟨rfl, rfl⟩ := List.cons.inj htext
          rw [hbytes, Text.toBytes, List.flatMap_cons, ← Text.toBytes, ih hrest]

theorem toBytes_of_decode {bytes : Bytes} {text : Text} (h : decode bytes = .ok text) :
    text.toBytes = bytes :=
  toBytes_of_decodeFrom_start h

section Decode

theorem exists_decodeFrom_inside {read payload least greatest index : Nat} {b : UInt8}
    {others : Bytes} (rest : Bytes) (hb : least ≤ b.toNat ∧ b.toNat ≤ greatest)
    (hothers : ∀ c ∈ others, 0x80 ≤ c.toNat ∧ c.toNat ≤ 0xBF) :
    ∃ index', decodeFrom (.inside read (others.length + 1) payload least greatest) index
        (b :: (others ++ rest)) =
      (decodeFrom .start index' rest).map
        (Char.ofNat ((b :: others).foldl (fun n c => n * 64 + c.toNat % 64) payload) :: ·) := by
  induction others generalizing b read payload least greatest with
  | nil =>
      rw [decodeFrom, if_pos hb]
      exact ⟨_, rfl⟩
  | cons c others ih =>
      rw [List.forall_mem_cons] at hothers
      obtain ⟨index', hrest⟩ := ih hothers.1 hothers.2
      rw [decodeFrom, if_pos hb, List.length_cons, if_neg (by omega)]
      exact ⟨index', hrest⟩

theorem exists_decodeFrom_start {payload least greatest : Nat} {a b : UInt8} {others : Bytes}
    {c : Char} (index : Nat) (rest : Bytes)
    (hlead : lead? a.toNat = some (others.length + 1, payload, least, greatest))
    (hb : least ≤ b.toNat ∧ b.toNat ≤ greatest)
    (hothers : ∀ c ∈ others, 0x80 ≤ c.toNat ∧ c.toNat ≤ 0xBF)
    (hcode : (b :: others).foldl (fun n c => n * 64 + c.toNat % 64) payload = c.toNat) :
    ∃ index', decodeFrom .start index (a :: b :: (others ++ rest)) =
      (decodeFrom .start index' rest).map (c :: ·) := by
  rw [decodeFrom, hlead]
  obtain ⟨index', hread⟩ := exists_decodeFrom_inside rest hb hothers
  exact ⟨index', hread.trans (by rw [hcode, Char.ofNat_toNat])⟩

theorem lead?_two {a : Nat} (h : 0xC2 ≤ a) (h' : a ≤ 0xDF) :
    lead? a = some (1, a - 0xC0, 0x80, 0xBF) := by
  rw [lead?, if_neg (by omega), if_pos ⟨h, h'⟩]

theorem lead?_three {a : Nat} (h : 0xE0 ≤ a) (h' : a ≤ 0xEF) :
    lead? a = some (2, a - 0xE0, if a = 0xE0 then 0xA0 else 0x80,
      if a = 0xED then 0x9F else 0xBF) := by
  rw [lead?, if_neg (by omega), if_neg (by omega)]
  split
  · simp [*]
  · split
    · simp [*]
    · rw [if_pos (by omega)]

theorem lead?_four {a : Nat} (h : 0xF0 ≤ a) (h' : a ≤ 0xF4) :
    lead? a = some (3, a - 0xF0, if a = 0xF0 then 0x90 else 0x80,
      if a = 0xF4 then 0x8F else 0xBF) := by
  rw [lead?, if_neg (by omega), if_neg (by omega), if_neg (by omega), if_neg (by omega),
    if_neg (by omega)]
  split
  · simp [*]
  · split
    · rw [if_neg (by omega)]
    · obtain rfl : a = 0xF4 := by omega
      rfl

theorem exists_decodeFrom_utf8EncodeChar (c : Char) (index : Nat) (rest : Bytes) :
    ∃ index', decodeFrom .start index (String.utf8EncodeChar c ++ rest) =
      (decodeFrom .start index' rest).map (c :: ·) := by
  have hword : UInt8.size = 256 := rfl
  have hvalid : c.toNat < 0xD800 ∨ 0xDFFF < c.toNat ∧ c.toNat < 0x110000 := c.valid
  simp only [String.utf8EncodeChar, show c.val.toNat = c.toNat from rfl]
  have hlast := UInt8.toNat_ofNat_of_lt' (n := c.toNat % 64 + 128) (by omega)
  have hthird := UInt8.toNat_ofNat_of_lt' (n := c.toNat / 64 % 64 + 128) (by omega)
  have hsecond := UInt8.toNat_ofNat_of_lt' (n := c.toNat / 4096 % 64 + 128) (by omega)
  split
  · refine ⟨index + 1, ?_⟩
    rw [List.singleton_append, decodeFrom, UInt8.toNat_ofNat_of_lt' (by omega), lead?,
      if_pos (by omega)]
    simp only [Char.ofNat_toNat]
  · split
    · have hlead := UInt8.toNat_ofNat_of_lt' (n := c.toNat / 64 % 32 + 192) (by omega)
      refine exists_decodeFrom_start index rest (lead?_two (by omega) (by omega)) (by omega)
        (List.forall_mem_nil _) ?_
      simp only [List.foldl_cons, List.foldl_nil, hlead, hlast]
      omega
    · split
      · have hlead := UInt8.toNat_ofNat_of_lt' (n := c.toNat / 4096 % 16 + 224) (by omega)
        refine exists_decodeFrom_start index rest (lead?_three (by omega) (by omega)) ?_
          (List.forall_mem_singleton.mpr (by omega)) ?_
        · rw [hlead, hthird]
          exact ⟨by split <;> omega, by split <;> omega⟩
        · simp only [List.foldl_cons, List.foldl_nil, hlead, hthird, hlast]
          omega
      · have hlead := UInt8.toNat_ofNat_of_lt' (n := c.toNat / 262144 % 8 + 240) (by omega)
        refine exists_decodeFrom_start index rest (lead?_four (by omega) (by omega)) ?_
          (List.forall_mem_cons.mpr ⟨by omega, List.forall_mem_singleton.mpr (by omega)⟩) ?_
        · rw [hlead, hsecond]
          exact ⟨by split <;> omega, by split <;> omega⟩
        · simp only [List.foldl_cons, List.foldl_nil, hlead, hsecond, hthird, hlast]
          omega

end Decode

theorem decodeFrom_toBytes (index : Nat) (text : Text) :
    decodeFrom .start index text.toBytes = .ok text := by
  induction text generalizing index with
  | nil => rfl
  | cons c text ih =>
      obtain ⟨index', hread⟩ := exists_decodeFrom_utf8EncodeChar c index (Text.toBytes text)
      rw [Text.toBytes, List.flatMap_cons, ← Text.toBytes, hread, ih index']
      rfl

theorem decode_toBytes (text : Text) : decode text.toBytes = .ok text :=
  decodeFrom_toBytes 0 text

section Ascii

variable {c : Char}

theorem utf8EncodeChar_of_lt (hc : c.toNat < 0x80) :
    String.utf8EncodeChar c = [UInt8.ofNat c.toNat] := by
  have hword : UInt8.size = 256 := rfl
  have hbyte := utf8EncodeChar_one (b := UInt8.ofNat c.toNat)
  rw [UInt8.toNat_ofNat_of_lt' (by omega), Char.ofNat_toNat] at hbyte
  exact hbyte hc

theorem le_toNat_of_mem_utf8EncodeChar (hc : 0x80 ≤ c.toNat) :
    ∀ b ∈ String.utf8EncodeChar c, 0x80 ≤ b.toNat := by
  have hword : UInt8.size = 256 := rfl
  have hvalid : c.toNat < 0xD800 ∨ 0xDFFF < c.toNat ∧ c.toNat < 0x110000 := c.valid
  simp only [String.utf8EncodeChar, show c.val.toNat = c.toNat from rfl]
  rw [if_neg (by omega)]
  have hlast := UInt8.toNat_ofNat_of_lt' (n := c.toNat % 64 + 128) (by omega)
  have hthird := UInt8.toNat_ofNat_of_lt' (n := c.toNat / 64 % 64 + 128) (by omega)
  have hsecond := UInt8.toNat_ofNat_of_lt' (n := c.toNat / 4096 % 64 + 128) (by omega)
  split
  · have hlead := UInt8.toNat_ofNat_of_lt' (n := c.toNat / 64 % 32 + 192) (by omega)
    exact List.forall_mem_cons.mpr ⟨by omega, List.forall_mem_singleton.mpr (by omega)⟩
  · split
    · have hlead := UInt8.toNat_ofNat_of_lt' (n := c.toNat / 4096 % 16 + 224) (by omega)
      exact List.forall_mem_cons.mpr ⟨by omega,
        List.forall_mem_cons.mpr ⟨by omega, List.forall_mem_singleton.mpr (by omega)⟩⟩
    · have hlead := UInt8.toNat_ofNat_of_lt' (n := c.toNat / 262144 % 8 + 240) (by omega)
      exact List.forall_mem_cons.mpr ⟨by omega, List.forall_mem_cons.mpr ⟨by omega,
        List.forall_mem_cons.mpr ⟨by omega, List.forall_mem_singleton.mpr (by omega)⟩⟩⟩

theorem count_utf8EncodeChar (hc : c.toNat < 0x80) (d : Char) :
    (String.utf8EncodeChar d).count (UInt8.ofNat c.toNat) = if d == c then 1 else 0 := by
  have hword : UInt8.size = 256 := rfl
  have hbyte := UInt8.toNat_ofNat_of_lt' (n := c.toNat) (by omega)
  by_cases hd : d = c
  · subst hd
    simp [utf8EncodeChar_of_lt hc]
  · rw [if_neg (by simpa using hd), List.count_eq_zero]
    intro hmem
    by_cases hd' : d.toNat < 0x80
    · rw [utf8EncodeChar_of_lt hd', List.mem_singleton, ← UInt8.toNat_inj, hbyte,
        UInt8.toNat_ofNat_of_lt' (by omega)] at hmem
      exact hd (Char.toNat_inj.mp hmem.symm)
    · have hle := le_toNat_of_mem_utf8EncodeChar (Nat.le_of_not_lt hd') _ hmem
      omega

theorem count_toBytes (hc : c.toNat < 0x80) (text : Text) :
    text.toBytes.count (UInt8.ofNat c.toNat) = text.count c := by
  induction text with
  | nil => rfl
  | cons d text ih =>
      rw [Text.toBytes, List.flatMap_cons, ← Text.toBytes, List.count_append, ih, List.count_cons,
        count_utf8EncodeChar hc, Nat.add_comm]

end Ascii

theorem length_toBytes (text : Text) : text.toBytes.length = text.byteSize := by
  induction text with
  | nil => rfl
  | cons c text ih =>
      rw [Text.toBytes, List.flatMap_cons, ← Text.toBytes, List.length_append, ih,
        String.length_utf8EncodeChar, Text.byteSize_cons]

end LogTemplate.Utf8
