import LogTemplate.Text.Letter

namespace LogTemplate

variable {c : Char}

/-- A letter of the ASCII range, or one of the two other characters that fold to such a letter. -/
def IsLetter (c : Char) : Prop :=
  c.isAlpha = true ∨ c = longS ∨ c = kelvinSign

theorem isAlpha_of_isLower (h : c.isLower = true) : c.isAlpha = true :=
  Bool.or_eq_true_iff.mpr (.inr h)

theorem exists_ofNat_of_isAlpha (h : c.isAlpha = true) : ∃ n < 0x80, Char.ofNat n = c := by
  have hcode : (decide (65 ≤ c.val ∧ c.val ≤ 90) || (97 ≤ c.val && c.val ≤ 122)) = true := h
  refine ⟨c.toNat, ?_, Char.ofNat_toNat c⟩
  simp [UInt32.le_iff_toNat_le] at hcode
  omega

theorem isLower_foldCase_of_isAlpha (h : c.isAlpha = true) : (foldCase c).isLower = true := by
  have hascii : ∀ n < 0x80, (Char.ofNat n).isAlpha = true →
      (foldCase (Char.ofNat n)).isLower = true := by decide
  obtain ⟨n, hn, rfl⟩ := exists_ofNat_of_isAlpha h
  exact hascii n hn h

theorem foldCase_of_isLower (h : c.isLower = true) : foldCase c = c := by
  have hascii : ∀ n < 0x80, (Char.ofNat n).isLower = true →
      foldCase (Char.ofNat n) = Char.ofNat n := by decide
  obtain ⟨n, hn, rfl⟩ := exists_ofNat_of_isAlpha (isAlpha_of_isLower h)
  exact hascii n hn h

theorem foldCase_cases (c : Char) :
    (IsLetter c ∧ (foldCase c).isLower = true) ∨ (¬IsLetter c ∧ foldCase c = c) := by
  by_cases hlong : c = longS
  · subst hlong
    exact .inl ⟨.inr (.inl rfl), by decide⟩
  by_cases hkelvin : c = kelvinSign
  · subst hkelvin
    exact .inl ⟨.inr (.inr rfl), by decide⟩
  by_cases halpha : c.isAlpha = true
  · exact .inl ⟨.inl halpha, isLower_foldCase_of_isAlpha halpha⟩
  · have hupper : ¬(c.val ≥ 65 ∧ c.val ≤ 90) := fun hupper =>
      halpha (Bool.or_eq_true_iff.mpr (.inl (decide_eq_true hupper)))
    have hsame : c.toLower = c := dif_neg hupper
    exact .inr ⟨by simp [IsLetter, halpha, hlong, hkelvin],
      by rw [foldCase, if_neg hlong, if_neg hkelvin, hsame]⟩

@[simp]
theorem foldCase_foldCase (c : Char) : foldCase (foldCase c) = foldCase c := by
  rcases foldCase_cases c with ⟨-, hlower⟩ | ⟨-, hsame⟩
  · exact foldCase_of_isLower hlower
  · rw [hsame, hsame]

theorem startsReceiver_iff : startsReceiver c = true ↔ IsLetter c ∨ c = '_' ∨ c = '$' := by
  rw [startsReceiver]
  rcases foldCase_cases c with ⟨hletter, hlower⟩ | ⟨hletter, hsame⟩
  · simp [startsName, isAlpha_of_isLower hlower, hletter]
  · have halpha : c.isAlpha = false := by
      simpa using fun h => hletter (.inl h)
    simp [startsName, hsame, halpha, hletter]

theorem continuesReceiver_iff :
    continuesReceiver c = true ↔ IsLetter c ∨ c = '_' ∨ c = '$' ∨ c.isDigit = true := by
  have hstarts := startsReceiver_iff (c := c)
  rw [startsReceiver] at hstarts
  rw [continuesReceiver, continuesName, Bool.or_eq_true, hstarts, or_assoc, or_assoc]
  rcases foldCase_cases c with ⟨hletter, -⟩ | ⟨-, hsame⟩
  · simp [hletter]
  · rw [hsame]

/-- A class with all lower-case letters in it is closed under folding, so a character that folds
together with a member of it folds to one. -/
theorem exists_folds_iff {members : Char → Bool}
    (hlower : ∀ d, d.isLower = true → members d = true) :
    (∃ d, members d = true ∧ foldCase c = foldCase d) ↔ members (foldCase c) = true := by
  constructor
  · rintro ⟨d, hd, hfold⟩
    rw [hfold]
    rcases foldCase_cases d with ⟨-, hfolded⟩ | ⟨-, hsame⟩
    · exact hlower _ hfolded
    · rwa [hsame]
  · exact fun h => ⟨foldCase c, h, (foldCase_foldCase c).symm⟩

theorem toCapital_eq (h : foldCase c ≠ 'k') : toCapital c = (foldCase c).toUpper := by
  have hascii : ∀ n < 0x80, toCapital (Char.ofNat n) = (foldCase (Char.ofNat n)).toUpper := by
    decide
  rcases foldCase_cases c with ⟨halpha | rfl | rfl, -⟩ | ⟨hletter, hsame⟩
  · obtain ⟨n, hn, rfl⟩ := exists_ofNat_of_isAlpha halpha
    exact hascii n hn
  · decide
  · exact absurd (by decide) h
  · have hlong : c ≠ longS := fun hlong => hletter (.inr (.inl hlong))
    rw [toCapital, if_neg hlong, hsame]

end LogTemplate
