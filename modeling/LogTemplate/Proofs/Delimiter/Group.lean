import LogTemplate.Delimiter

namespace LogTemplate.Delimiter

variable {depth : Nat} {text group rest : Text} {c : Char}

theorem append_of_splitClosing (h : splitClosing depth text = some (group, rest)) :
    text = group ++ rest := by
  induction text generalizing depth group with
  | nil => simp [splitClosing] at h
  | cons c text ih =>
      simp only [splitClosing] at h
      split at h
      · obtain ⟨rfl, rfl⟩ := Prod.mk.inj (Option.some.inj h)
        rfl
      · obtain ⟨⟨group', rest'⟩, hrest, heq⟩ := Option.map_eq_some_iff.mp h
        obtain ⟨rfl, rfl⟩ := Prod.mk.inj heq
        rw [ih hrest]
        rfl

theorem ne_nil_of_splitClosing (h : splitClosing depth text = some (group, rest)) :
    group ≠ [] := by
  rintro rfl
  cases text with
  | nil => simp [splitClosing] at h
  | cons c text =>
      simp only [splitClosing] at h
      split at h
      · simp at h
      · simp at h

theorem append_of_splitGroup (h : splitGroup text = some (group, rest)) :
    text = group ++ rest := by
  unfold splitGroup at h
  split at h
  · exact append_of_splitClosing h
  · simp at h

/-- The text starts with a parenthesis, and as many are closed as opened at its end for the first
time. -/
structure IsGroup (text : Text) : Prop where
  head : text.head? = some '('
  count_eq : text.count ')' = text.count '('
  count_ne : ∀ u v, text = u ++ v → u ≠ [] → v ≠ [] → u.count ')' ≠ u.count '('

/-- Where `depth` groups are open, the text closes the last of them at its end and not before. -/
structure ClosesAtEnd (depth : Nat) (text : Text) : Prop where
  count_eq : text.count ')' = depth + text.count '('
  count_ne : ∀ u v, text = u ++ v → v ≠ [] → u.count ')' ≠ depth + u.count '('

theorem closesAtEnd_zero_iff : ClosesAtEnd 0 text ↔ text = [] := by
  constructor
  · intro h
    apply Decidable.byContradiction
    intro hne
    exact h.count_ne [] text rfl hne rfl
  · rintro rfl
    refine ⟨rfl, ?_⟩
    rintro u v huv hv
    exact absurd (List.nil_eq_append_iff.mp huv).2 hv

theorem count_cons_iff (hdepth : 0 < depth) :
    (c :: text).count ')' = depth + (c :: text).count '(' ↔
      text.count ')' = depthAfter depth c + text.count '(' := by
  rw [depthAfter, List.count_cons, List.count_cons]
  by_cases hopen : c = '('
  · subst hopen
    simp only [beq_iff_eq, Char.reduceEq, if_true, if_false]
    omega
  · by_cases hclose : c = ')'
    · subst hclose
      simp only [beq_iff_eq, Char.reduceEq, if_true, if_false]
      omega
    · simp [hopen, hclose]

theorem closesAtEnd_cons_iff (hdepth : 0 < depth) :
    ClosesAtEnd depth (c :: text) ↔ ClosesAtEnd (depthAfter depth c) text := by
  constructor
  · rintro ⟨heq, hne⟩
    refine ⟨(count_cons_iff hdepth).mp heq, ?_⟩
    intro u v huv hv hcount
    apply hne (c :: u) v (by rw [huv, List.cons_append]) hv
    exact (count_cons_iff hdepth).mpr hcount
  · rintro ⟨heq, hne⟩
    refine ⟨(count_cons_iff hdepth).mpr heq, ?_⟩
    intro u v huv hv hcount
    cases u with
    | nil => exact absurd hcount (by simp; omega)
    | cons d u =>
        rcases List.cons.inj huv with ⟨rfl, htext⟩
        exact hne u v htext hv ((count_cons_iff hdepth).mp hcount)

theorem depthAfter_eq_zero_iff (hdepth : 0 < depth) :
    depthAfter depth c = 0 ↔ c = ')' ∧ depth = 1 := by
  rw [depthAfter]
  by_cases hopen : c = '('
  · simp [hopen]
  · by_cases hclose : c = ')'
    · subst hclose
      simp only [Char.reduceEq, if_true, if_false, true_and]
      omega
    · simp only [hopen, hclose, if_false, false_and, iff_false]
      omega

theorem splitClosing_eq_some_iff (hdepth : 0 < depth) :
    splitClosing depth (group ++ rest) = some (group, rest) ↔ ClosesAtEnd depth group := by
  induction group generalizing depth with
  | nil =>
      constructor
      · intro h
        exact absurd rfl (ne_nil_of_splitClosing h)
      · intro h
        exact absurd h.count_eq (by simp; omega)
  | cons c group ih =>
      rw [closesAtEnd_cons_iff hdepth, List.cons_append, splitClosing]
      by_cases hclose : c = ')' ∧ depthAfter depth c = 0
      · rw [if_pos hclose, hclose.2, closesAtEnd_zero_iff]
        simp [hclose.1, eq_comm]
      · have hpos : 0 < depthAfter depth c := by
          apply Nat.pos_of_ne_zero
          intro hzero
          exact hclose ⟨((depthAfter_eq_zero_iff hdepth).mp hzero).1, hzero⟩
        rw [if_neg hclose, ← ih hpos]
        simp

theorem isGroup_cons_iff : IsGroup ('(' :: text) ↔ ClosesAtEnd 1 text := by
  constructor
  · rintro ⟨-, heq, hne⟩
    refine ⟨by simpa [Nat.add_comm] using heq, ?_⟩
    intro u v huv hv hcount
    apply hne ('(' :: u) v (by rw [huv, List.cons_append]) (by simp) hv
    simpa [Nat.add_comm] using hcount
  · rintro ⟨heq, hne⟩
    refine ⟨rfl, by simpa [Nat.add_comm] using heq, ?_⟩
    intro u v huv hu hv hcount
    cases u with
    | nil => exact hu rfl
    | cons c u =>
        rcases List.cons.inj huv with ⟨rfl, htext⟩
        exact hne u v htext hv (by simpa [Nat.add_comm] using hcount)

theorem splitGroup_eq_some_iff :
    splitGroup (group ++ rest) = some (group, rest) ↔ IsGroup group := by
  by_cases hhead : group.head? = some '('
  · obtain ⟨inner, rfl⟩ := List.head?_eq_some_iff.mp hhead
    have hopen : splitGroup ('(' :: inner ++ rest) =
        (splitClosing 1 (inner ++ rest)).map fun found => ('(' :: found.1, found.2) := rfl
    have hinner : splitClosing 1 (inner ++ rest) = some (inner, rest) ↔ ClosesAtEnd 1 inner :=
      splitClosing_eq_some_iff Nat.one_pos
    rw [isGroup_cons_iff, ← hinner, hopen]
    simp
  · constructor
    · intro h
      unfold splitGroup at h
      split at h
      · rename_i cs hcs
        cases group with
        | nil => exact absurd rfl (ne_nil_of_splitClosing h)
        | cons c group => exact absurd (congrArg some (List.cons.inj hcs).1) hhead
      · simp at h
    · intro h
      exact absurd h.head hhead

theorem isGroup_of_splitGroup (h : splitGroup text = some (group, rest)) : IsGroup group := by
  rw [append_of_splitGroup h] at h
  exact splitGroup_eq_some_iff.mp h

theorem ClosesAtEnd.getLast?_eq (hdepth : 0 < depth) (h : ClosesAtEnd depth text) :
    text.getLast? = some ')' := by
  induction text generalizing depth with
  | nil => exact absurd h.count_eq (by simp; omega)
  | cons c text ih =>
      rw [closesAtEnd_cons_iff hdepth] at h
      by_cases hzero : depthAfter depth c = 0
      · rw [hzero, closesAtEnd_zero_iff] at h
        rw [h, ((depthAfter_eq_zero_iff hdepth).mp hzero).1]
        rfl
      · rw [List.getLast?_cons, ih (Nat.pos_of_ne_zero hzero) h]
        rfl

theorem IsGroup.getLast?_eq (h : IsGroup text) : text.getLast? = some ')' := by
  obtain ⟨inner, rfl⟩ := List.head?_eq_some_iff.mp h.head
  rw [List.getLast?_cons, (isGroup_cons_iff.mp h).getLast?_eq Nat.one_pos]
  rfl

end LogTemplate.Delimiter
