import LogTemplate.Call.Shape
import LogTemplate.Message.Template
import Mathlib.Data.List.Infix
import Mathlib.Data.List.TakeWhile

/-!
The placeholders in a text: its parts that are an opening brace, decimal digits and a closing brace.
A text whose check for placeholders fails has none in any part of it. The body of a template has a
placeholder for each parameter, and more of them exactly when the literals between two parameters
form some.
-/

namespace LogTemplate

def placeholderAt : Text → Option Text
  | '{' :: cs =>
      match cs.span isDecimalDigit with
      | (c :: digits, '}' :: _) => some ('{' :: (c :: digits ++ ['}']))
      | _ => none
  | _ => none

/-- The placeholders of a text, from left to right. -/
def placeholders (text : Text) : List Text :=
  text.tails.filterMap placeholderAt

theorem placeholderAt_eq_some_iff {text found : Text} :
    placeholderAt text = some found ↔
      ∃ digits rest, digits ≠ [] ∧ (∀ c ∈ digits, isDecimalDigit c = true) ∧
        found = '{' :: (digits ++ ['}']) ∧ text = found ++ rest := by
  constructor
  · intro h
    unfold placeholderAt at h
    split at h
    · rename_i cs
      split at h
      · rename_i c digits rest hspan
        rw [List.span_eq_takeWhile_dropWhile] at hspan
        obtain ⟨htake, hdrop⟩ := Prod.mk.inj hspan
        refine ⟨c :: digits, rest, List.cons_ne_nil c digits, ?_, (Option.some.inj h).symm, ?_⟩
        · intro d hd
          rw [← htake] at hd
          exact List.mem_takeWhile_imp hd
        · have hcs : cs.takeWhile isDecimalDigit ++ cs.dropWhile isDecimalDigit = cs :=
            List.takeWhile_append_dropWhile
          rw [← Option.some.inj h, ← hcs, htake, hdrop]
          simp
      · simp at h
    · simp at h
  · rintro ⟨digits, rest, hne, hdigits, rfl, rfl⟩
    obtain ⟨c, digits, rfl⟩ := List.exists_cons_of_ne_nil hne
    have hspan : (c :: digits ++ '}' :: rest).span isDecimalDigit =
        (c :: digits, '}' :: rest) := by
      rw [List.span_eq_takeWhile_dropWhile, List.takeWhile_append_of_pos hdigits,
        List.dropWhile_append_of_pos hdigits, List.takeWhile_cons_of_neg (by decide),
        List.dropWhile_cons_of_neg (by decide), List.append_nil]
    simp only [List.cons_append, List.append_assoc, List.nil_append] at hspan ⊢
    simp only [placeholderAt, hspan]
    rfl

theorem placeholderAt_of_head?_ne {text : Text} (h : text.head? ≠ some '{') :
    placeholderAt text = none := by
  cases hfound : placeholderAt text with
  | none => rfl
  | some found =>
      obtain ⟨digits, rest, -, -, rfl, rfl⟩ := placeholderAt_eq_some_iff.mp hfound
      exact absurd rfl h

/-- A text that goes on with no digit and no closing brace completes no placeholder. -/
theorem placeholderAt_append {u v : Text} (hu : u ≠ [])
    (hv : ∀ c, v.head? = some c → isDecimalDigit c = false ∧ c ≠ '}') :
    placeholderAt (u ++ v) = placeholderAt u := by
  apply Option.ext
  intro found
  rw [placeholderAt_eq_some_iff, placeholderAt_eq_some_iff]
  constructor
  · rintro ⟨digits, rest, hne, hdigits, rfl, htext⟩
    rcases List.append_eq_append_iff.mp htext with ⟨w, hw, hrest⟩ | ⟨w, hw, -⟩
    · cases w with
      | nil => exact ⟨digits, [], hne, hdigits, rfl, by simpa using hw.symm⟩
      | cons c w =>
          -- The placeholder reaches into the second text, whose first character it cannot hold.
          obtain ⟨hdigit, hbrace⟩ := hv c (by simp [hrest])
          obtain ⟨d, u, rfl⟩ := List.exists_cons_of_ne_nil hu
          have hmem : c ∈ digits ++ ['}'] := by
            rw [(List.cons.inj hw).2]
            simp
          rcases List.mem_append.mp hmem with hmem | hmem
          · simp [hdigits c hmem] at hdigit
          · exact absurd (List.mem_singleton.mp hmem) hbrace
    · exact ⟨digits, w, hne, hdigits, rfl, hw⟩
  · rintro ⟨digits, rest, hne, hdigits, hfound, rfl⟩
    exact ⟨digits, rest ++ v, hne, hdigits, hfound, by simp⟩

@[simp]
theorem placeholders_nil : placeholders [] = [] := rfl

theorem placeholders_cons (c : Char) (cs : Text) :
    placeholders (c :: cs) = (placeholderAt (c :: cs)).toList ++ placeholders cs := by
  rw [placeholders, List.tails_cons, List.filterMap_cons]
  cases placeholderAt (c :: cs) with
  | none => rfl
  | some found => rfl

theorem placeholders_append {u v : Text}
    (hv : ∀ c, v.head? = some c → isDecimalDigit c = false ∧ c ≠ '}') :
    placeholders (u ++ v) = placeholders u ++ placeholders v := by
  induction u with
  | nil => rfl
  | cons c u ih =>
      have hfront := placeholderAt_append (List.cons_ne_nil c u) hv
      rw [List.cons_append] at hfront ⊢
      rw [placeholders_cons, placeholders_cons, hfront, ih, List.append_assoc]

theorem placeholders_append_of_not_mem {u : Text} (v : Text) (hu : '{' ∉ u) :
    placeholders (u ++ v) = placeholders v := by
  induction u with
  | nil => rfl
  | cons c u ih =>
      have hc : (c :: (u ++ v)).head? ≠ some '{' := by
        rintro hc
        exact hu (by simp [Option.some.inj hc])
      rw [List.cons_append, placeholders_cons, placeholderAt_of_head?_ne hc,
        ih fun hmem => hu (List.mem_cons_of_mem c hmem)]
      rfl

theorem isDecimalDigit_of_mem_ofNat {n : Nat} {c : Char} (h : c ∈ Text.ofNat n) :
    isDecimalDigit c = true :=
  isDecimalDigit_of_isDigit (Nat.isDigit_of_mem_toDigits (by decide) (by decide) h)

theorem placeholderAt_placeholder_append (n : Nat) (v : Text) :
    placeholderAt (Template.placeholder n ++ v) = some (Template.placeholder n) :=
  placeholderAt_eq_some_iff.mpr ⟨Text.ofNat n, v, Nat.toDigits_ne_nil,
    fun _ hc => isDecimalDigit_of_mem_ofNat hc, rfl, rfl⟩

theorem placeholders_placeholder_append (n : Nat) (v : Text) :
    placeholders (Template.placeholder n ++ v) = Template.placeholder n :: placeholders v := by
  have hfront := placeholderAt_placeholder_append n v
  have hbrace : '{' ∉ Text.ofNat n ++ ['}'] := by
    intro hmem
    rcases List.mem_append.mp hmem with hmem | hmem
    · exact absurd (isDecimalDigit_of_mem_ofNat hmem) (by decide)
    · exact absurd hmem (by decide)
  have hsplit : Template.placeholder n ++ v = '{' :: ((Text.ofNat n ++ ['}']) ++ v) := rfl
  rw [hsplit] at hfront ⊢
  rw [placeholders_cons, hfront, placeholders_append_of_not_mem v hbrace]
  rfl

theorem hasPlaceholder_cons {cs : Text} (c : Char) (h : hasPlaceholder cs = true) :
    hasPlaceholder (c :: cs) = true := by
  by_cases hc : c = '{'
  · subst hc
    cases cs with
    | nil => simp [hasPlaceholder] at h
    | cons d cs => simp [hasPlaceholder, h]
  · rw [hasPlaceholder]
    · exact h
    · rintro d cs' rfl
      exact absurd rfl hc

theorem hasPlaceholder_append {v : Text} (u : Text) (h : hasPlaceholder v = true) :
    hasPlaceholder (u ++ v) = true := by
  induction u with
  | nil => exact h
  | cons c u ih => exact hasPlaceholder_cons c ih

theorem closesOnLine_iff {text : Text} :
    closesOnLine text = true ↔
      ∃ between after, text = between ++ '}' :: after ∧ '\n' ∉ between := by
  rw [closesOnLine, List.contains_iff_mem]
  constructor
  · intro h
    obtain ⟨between, after, hline⟩ := List.append_of_mem h
    refine ⟨between, after ++ text.dropWhile (· ≠ '\n'), ?_, fun hmem => ?_⟩
    · rw [← List.cons_append, ← List.append_assoc, ← hline, List.takeWhile_append_dropWhile]
    · have hkept : '\n' ∈ text.takeWhile (· ≠ '\n') := by
        rw [hline]
        exact List.mem_append_left _ hmem
      simpa using List.mem_takeWhile_imp hkept
  · rintro ⟨between, after, rfl, hnewline⟩
    have hbetween : ∀ c ∈ between, decide (c ≠ '\n') = true := by
      rintro c hc
      rw [decide_eq_true_eq]
      rintro rfl
      exact hnewline hc
    rw [List.takeWhile_append_of_pos hbetween]
    simp

theorem hasPlaceholder_iff {text : Text} :
    hasPlaceholder text = true ↔ ∃ before digit between after,
      text = before ++ '{' :: digit :: (between ++ '}' :: after) ∧ isDecimalDigit digit = true ∧
        '\n' ∉ between := by
  constructor
  · intro h
    fun_induction hasPlaceholder text with
    | case1 => cases h
    | case2 c cs ih =>
        rw [Bool.or_eq_true, Bool.and_eq_true, closesOnLine_iff] at h
        rcases h with ⟨hdigit, between, after, rfl, hnewline⟩ | h
        · exact ⟨[], c, between, after, rfl, hdigit, hnewline⟩
        · obtain ⟨before, digit, between, after, htext, hrest⟩ := ih h
          exact ⟨'{' :: before, digit, between, after, by rw [htext, List.cons_append], hrest⟩
    | case3 c cs _ ih =>
        obtain ⟨before, digit, between, after, rfl, hrest⟩ := ih h
        exact ⟨c :: before, digit, between, after, rfl, hrest⟩
  · rintro ⟨before, digit, between, after, rfl, hdigit, hnewline⟩
    apply hasPlaceholder_append
    have hcloses : closesOnLine (between ++ '}' :: after) = true :=
      closesOnLine_iff.mpr ⟨between, after, rfl, hnewline⟩
    simp [hasPlaceholder, hdigit, hcloses]

theorem hasPlaceholder_of_placeholderAt {text found : Text} (v : Text)
    (h : placeholderAt text = some found) : hasPlaceholder (text ++ v) = true := by
  obtain ⟨digits, rest, hne, hdigits, rfl, rfl⟩ := placeholderAt_eq_some_iff.mp h
  obtain ⟨c, digits, rfl⟩ := List.exists_cons_of_ne_nil hne
  refine hasPlaceholder_iff.mpr ⟨[], c, digits, rest ++ v, by simp, hdigits c (by simp), ?_⟩
  intro hmem
  exact absurd (hdigits _ (List.mem_cons_of_mem c hmem)) (by decide)

theorem placeholders_eq_nil_of_infix {text part : Text} (h : hasPlaceholder text = false)
    (hpart : part <:+: text) : placeholders part = [] := by
  rw [List.eq_nil_iff_forall_not_mem]
  intro found hmem
  obtain ⟨tail, htail, hfound⟩ := List.mem_filterMap.mp hmem
  obtain ⟨u, rfl⟩ := (List.mem_tails tail part).mp htail
  obtain ⟨x, y, rfl⟩ := hpart
  have hpresent := hasPlaceholder_append (x ++ u) (hasPlaceholder_of_placeholderAt y hfound)
  simp only [List.append_assoc] at hpresent h
  simp [hpresent] at h

end LogTemplate
