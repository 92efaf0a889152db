import LogTemplate.Proofs.Source.Extent

namespace LogTemplate.Statement

variable {lines : List Text} {trigger n : Nat} {line code : Text}

@[simp]
theorem above_zero (lines : List Text) : above lines 0 = [] := rfl

theorem above_succ (h : lines[n]? = some line) :
    above lines (n + 1) = if closes line then [] else line.trim :: above lines n := by
  have htake : (lines.take (n + 1)).reverse = line :: (lines.take n).reverse := by
    rw [List.take_add_one, h]
    simp
  rw [above, htake, List.takeWhile_cons]
  cases hcloses : closes line with
  | true => rfl
  | false => rfl

theorem above_append_left (before after : List Text) :
    above (before ++ after) before.length = above before before.length := by
  rw [above, above, List.take_left, List.take_length]

theorem above_succ_of_closes (h : lines[n]? = some line) (hcloses : closes line = true) :
    above lines (n + 1) = [] := by
  rw [above_succ h, if_pos hcloses]

theorem closes_of_semicolon_mem (h : ';' ∈ line) : closes line = true :=
  List.any_eq_true.mpr ⟨';', h, by decide⟩

theorem semicolon_not_mem_above : ∀ line ∈ above lines n, ';' ∉ line := by
  intro line hline
  obtain ⟨source, hsource, rfl⟩ := List.mem_map.mp hline
  rw [Text.mem_trim_iff (by decide)]
  apply semicolon_not_mem_of_not_closes
  simpa using List.mem_takeWhile_imp hsource

theorem above_append {before near : List Text} (after : List Text)
    (hopen : ∀ line ∈ near, closes line = false) :
    above (before ++ (near ++ after)) (before.length + near.length) =
      (near.map Text.trim).reverse ++ above (before ++ (near ++ after)) before.length := by
  have htake : (before ++ (near ++ after)).take (before.length + near.length) = before ++ near := by
    rw [← List.length_append, ← List.append_assoc, List.take_left]
  have hnear : ∀ line ∈ near.reverse, (!closes line) = true := by
    intro line hline
    simp [hopen line (List.mem_reverse.mp hline)]
  rw [above, above, htake, List.take_left, List.reverse_append,
    List.takeWhile_append_of_pos hnear, List.map_append, List.map_reverse]

theorem above_firstLine (h : n ≤ lines.length) :
    ∀ line ∈ above lines (firstLine n n (above lines n)), line = [] := by
  induction n with
  | zero => simp [firstLine]
  | succ n ih =>
      have hget : lines[n]? = some lines[n] := List.getElem?_eq_getElem h
      have hlength : (above lines n).length ≤ n := by
        simp only [above, List.length_map]
        refine (List.takeWhile_prefix _).length_le.trans ?_
        rw [List.length_reverse, List.length_take]
        omega
      rw [above_succ hget]
      split
      next hcloses => simp [firstLine, above_succ_of_closes hget hcloses]
      next hopen =>
        have hnext := above_succ hget
        rw [if_neg hopen] at hnext
        have hfirst := ih (Nat.le_of_succ_le h)
        rw [firstLine] at hfirst ⊢
        rw [List.reverse_cons, List.findIdx?_append]
        cases hfind : (above lines n).reverse.findIdx? fun line => !line.isEmpty with
        | some index =>
            rw [hfind] at hfirst
            simpa using hfirst
        | none =>
            have hblank : ∀ line ∈ above lines n, line = [] := by
              intro line hline
              simpa using List.findIdx?_eq_none_iff.mp hfind line (List.mem_reverse.mpr hline)
            by_cases hline : (lines[n]).trim = []
            · simpa [hline, hnext] using hblank
            · have hindex : n - (above lines n).length + (above lines n).length = n := by omega
              simpa [hline, hindex] using hblank

theorem above_first (h : trigger < lines.length) :
    ∀ line ∈ above lines (locate lines trigger).first, line = [] := by
  have hfirst := above_firstLine h.le
  simpa [locate, Nat.min_eq_left h.le] using hfirst

theorem takeIn_append_of_open {upper : List Text} (below : List Text) (hcode : ';' ∉ code)
    (hopen : ∀ line ∈ upper, ';' ∉ line)
    (hhead : ∀ line, upper.head? = some line → code ++ line.trim ≠ []) :
    takeIn code (upper ++ below) =
      ((takeIn (code ++ (upper.map Text.trim).flatten) below).1,
        upper.length + (takeIn (code ++ (upper.map Text.trim).flatten) below).2) := by
  induction upper generalizing code with
  | nil => simp
  | cons line upper ih =>
      have hne : code ++ line.trim ≠ [] := hhead line rfl
      have hnot : ';' ∉ code ++ line.trim := by
        rw [List.mem_append, not_or, Text.mem_trim_iff (by decide)]
        exact ⟨hcode, hopen line List.mem_cons_self⟩
      have hgo : ¬((code ++ line.trim).isEmpty || (code ++ line.trim).contains ';') = true := by
        simpa [hnot] using hne
      have hrest := ih hnot (fun other hother => hopen other (List.mem_cons_of_mem _ hother))
        fun other _ hempty => hne (List.append_eq_nil_iff.mp hempty).1
      rw [List.cons_append, takeIn_cons_of_go _ hgo, hrest]
      simp only [List.map_cons, List.flatten_cons, List.append_assoc, List.length_cons,
        Prod.mk.injEq, true_and]
      omega

theorem takeIn_append_final {upper : List Text} {final : Text} (below : List Text)
    (hcode : ';' ∉ code) (hbegun : upper ≠ [] → code ≠ []) (hopen : ∀ line ∈ upper, ';' ∉ line)
    (hfinal : ';' ∈ final) :
    takeIn code (upper ++ final :: below) =
      (code ++ ((upper ++ [final]).map Text.trim).flatten, upper.length + 1) := by
  have hmem : ';' ∈ final.trim := (Text.mem_trim_iff (by decide)).mpr hfinal
  have hhead : ∀ line, upper.head? = some line → code ++ line.trim ≠ [] := by
    intro line hline hempty
    exact hbegun (List.ne_nil_of_mem (List.mem_of_head? hline)) (List.append_eq_nil_iff.mp hempty).1
  rw [takeIn_append_of_open _ hcode hopen hhead, takeIn_cons_of_stop _ (by simp [hmem])]
  simp

/-- Either the code is complete within the upper lines, whatever stands below, or all of them are
taken in. -/
theorem takeIn_append_cases (code : Text) (upper : List Text) :
    (∃ taken, taken.2 ≤ upper.length ∧ ∀ below, takeIn code (upper ++ below) = taken) ∨
      ((∀ line ∈ upper, ';' ∉ line) ∧ (upper ≠ [] → code ++ (upper.map Text.trim).flatten ≠ []) ∧
        ∀ below, takeIn code (upper ++ below) =
          ((takeIn (code ++ (upper.map Text.trim).flatten) below).1,
            upper.length + (takeIn (code ++ (upper.map Text.trim).flatten) below).2)) := by
  induction upper generalizing code with
  | nil => exact .inr ⟨by simp, by simp, by simp⟩
  | cons line upper ih =>
      by_cases hstop : ((code ++ line.trim).isEmpty || (code ++ line.trim).contains ';') = true
      · exact .inl ⟨(code ++ line.trim, 1), by simp, fun below => takeIn_cons_of_stop _ hstop⟩
      · have hgo : code ++ line.trim ≠ [] ∧ ';' ∉ code ++ line.trim := by simpa using hstop
        rcases ih (code ++ line.trim) with ⟨taken, hle, htaken⟩ | ⟨hopen, -, htaken⟩
        · refine .inl ⟨(taken.1, taken.2 + 1), by simpa using hle, fun below => ?_⟩
          rw [List.cons_append, takeIn_cons_of_go _ hstop, htaken]
        · refine .inr ⟨?_, fun _ hempty => ?_, fun below => ?_⟩
          · intro other hother
            rcases List.mem_cons.mp hother with rfl | hother
            · rw [← Text.mem_trim_iff (by decide)]
              exact fun hmem => hgo.2 (List.mem_append_right _ hmem)
            · exact hopen other hother
          · rw [List.map_cons, List.flatten_cons, ← List.append_assoc] at hempty
            exact hgo.1 (List.append_eq_nil_iff.mp hempty).1
          · rw [List.cons_append, takeIn_cons_of_go _ hstop, htaken]
            simp only [List.map_cons, List.flatten_cons, List.append_assoc, List.length_cons,
              Prod.mk.injEq, true_and]
            omega

theorem locate_code (lines : List Text) (trigger : Nat) :
    (locate lines trigger).code =
      (takeIn (above lines trigger).reverse.flatten (lines.drop trigger)).1 := rfl

theorem takeIn_pos {below : List Text} (h : below ≠ []) : 0 < (takeIn code below).2 := by
  obtain ⟨line, below, rfl⟩ := List.exists_cons_of_ne_nil h
  rw [takeIn]
  dsimp only
  split
  · exact Nat.one_pos
  · exact Nat.succ_pos _

theorem first_le (h : trigger < lines.length) : (locate lines trigger).first ≤ trigger := by
  obtain ⟨extent, hextent⟩ := exists_surrounds h
  rw [← hextent.statement_eq]
  exact hextent.first_le

theorem last_succ (h : trigger < lines.length) :
    (locate lines trigger).last + 1 =
      trigger + (takeIn (above lines trigger).reverse.flatten (lines.drop trigger)).2 := by
  have hpos : 0 < (takeIn (above lines trigger).reverse.flatten (lines.drop trigger)).2 :=
    takeIn_pos (by simpa using h)
  have hfirst := first_le h
  simp only [locate] at hfirst ⊢
  omega

theorem flatten_reverse_above (h : ∀ line ∈ above lines n, line = []) :
    (above lines n).reverse.flatten = [] := by
  simpa using h

theorem locate_code_of_semicolon {below : List Text} (hlines : lines.drop n = line :: below)
    (habove : ∀ other ∈ above lines n, other = []) (hline : ';' ∈ line) :
    (locate lines n).code = line.trim := by
  have hmem : ';' ∈ line.trim := (Text.mem_trim_iff (by decide)).mpr hline
  rw [locate_code, flatten_reverse_above habove, hlines, takeIn_cons_of_stop _ (by simp [hmem]),
    List.nil_append]

attribute [ext] Statement

theorem locate_first (h : trigger < lines.length) (hcode : (locate lines trigger).code ≠ []) :
    locate lines (locate lines trigger).first = locate lines trigger := by
  obtain ⟨before, near, upper, final, after, hlines, hcount, hnear, -, hlocate, hhead⟩ :=
    exists_locate_eq h
  have hblank := above_first h
  have hfirst : (locate lines trigger).first = before.length := by rw [hlocate]
  rw [hfirst] at hblank ⊢
  have hdrop : lines.drop trigger = upper ++ final :: after := by
    rw [hlines, ← hcount, ← List.drop_drop, List.drop_left, List.append_assoc, List.drop_left]
  have hdropFirst : lines.drop before.length = near ++ lines.drop trigger := by
    rw [hdrop, hlines, List.drop_left, List.append_assoc]
  have habove : (above lines trigger).reverse.flatten = (near.map Text.trim).flatten := by
    have happend := @above_append before near (upper ++ final :: after) hnear
    rw [← List.append_assoc near, ← hlines, hcount] at happend
    rw [happend, List.reverse_append, List.flatten_append, flatten_reverse_above hblank,
      List.reverse_reverse, List.nil_append]
  have htake : takeIn (above lines before.length).reverse.flatten (lines.drop before.length) =
      ((takeIn (above lines trigger).reverse.flatten (lines.drop trigger)).1,
        near.length + (takeIn (above lines trigger).reverse.flatten (lines.drop trigger)).2) := by
    rw [flatten_reverse_above hblank, hdropFirst, habove]
    refine takeIn_append_of_open _ (by simp) ?_ ?_
    · exact fun line hline => semicolon_not_mem_of_not_closes (hnear line hline)
    · intro line hline
      exact hhead hcode line (by simp [hline])
  have hlength : before.length < lines.length := by omega
  apply Statement.ext
  · rw [locate_code, htake, locate_code]
  · have hnone :
        (above lines before.length).reverse.findIdx? (fun line => !line.isEmpty) = none := by
      rw [List.findIdx?_eq_none_iff]
      intro line hline
      simp [hblank line (List.mem_reverse.mp hline)]
    rw [hfirst, locate]
    simp only [firstLine, hnone]
  · have hlast := last_succ h
    have hlastFirst := last_succ hlength
    rw [htake] at hlastFirst
    simp only at hlastFirst
    omega

end LogTemplate.Statement
