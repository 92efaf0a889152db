import LogTemplate.Proofs.Delimiter.Automaton

/-!
Two searches find the end of a group. One starts at the opening parenthesis and counts, whatever
literals there are; it stops where as many parentheses are closed as opened for the first time, and
until then it has never to close a group that is not open. The other one starts behind the opening
parenthesis and looks for a closing one at top level. Where there are no literals, the first one is
always one group deeper than the second, and they stop at the same byte.
-/

namespace LogTemplate.Delimiter.Bytes

variable {b : UInt8} {bytes : List UInt8} {depth i n : Nat}

/-- The number of open groups after `n` bytes, if there are `depth` before them. -/
def depthAt (depth : Nat) (bytes : List UInt8) (n : Nat) : Nat :=
  (bytes.take n).foldl depthAfter depth

theorem depthAt_cons_succ :
    depthAt depth (b :: bytes) (n + 1) = depthAt (depthAfter depth b) bytes n :=
  rfl

/-- As many groups are closed as opened up to and with the byte at index `i`. -/
structure Balanced (bytes : List UInt8) (i : Nat) : Prop where
  lt_length : i < bytes.length
  count_eq : (bytes.take (i + 1)).count (ascii ')') = (bytes.take (i + 1)).count (ascii '(')

theorem closes_of_depthAfter_eq_zero (hdepth : 0 < depth) (h : depthAfter depth b = 0) :
    b = ascii ')' := by
  rw [depthAfter] at h
  split at h
  · omega
  · split at h
    · assumption
    · omega

theorem first_closingEnd (hdepth : 0 < depth) (bytes : List UInt8) :
    First (fun i => i < bytes.length ∧ depthAt depth bytes (i + 1) = 0)
      (closingEnd depth bytes) := by
  induction bytes generalizing depth with
  | nil => exact .none fun i hi => absurd hi.1 (Nat.not_lt_zero i)
  | cons b bytes ih =>
      simp only [closingEnd]
      split
      · rename_i hclose
        exact .zero ⟨Nat.succ_pos _, hclose.2⟩
      · rename_i hopen
        have hne : depthAfter depth b ≠ 0 := fun hzero =>
          hopen ⟨closes_of_depthAfter_eq_zero hdepth hzero, hzero⟩
        refine .succ (fun hzero => hne hzero.2) ?_
        simpa [depthAt_cons_succ] using ih (Nat.pos_of_ne_zero hne)

theorem depthAfter_add (hdepth : 0 < depth) (b : UInt8) (u : List UInt8) :
    depthAfter depth b + ((b :: u).count (ascii ')') + u.count (ascii '(')) =
      depth + ((b :: u).count (ascii '(') + u.count (ascii ')')) := by
  rw [List.count_cons, List.count_cons, depthAfter]
  by_cases hopen : b = ascii '('
  · subst hopen
    have hne : (ascii '(' == ascii ')') = false := by decide
    simp only [hne, beq_self_eq_true, if_true, Bool.false_eq_true, if_false]
    omega
  · by_cases hclose : b = ascii ')'
    · subst hclose
      have hne : (ascii ')' == ascii '(') = false := by decide
      simp only [hne, hopen, beq_self_eq_true, if_true, Bool.false_eq_true, if_false]
      omega
    · simp [hopen, hclose]
      omega

/-- As long as no group is closed that is not open, the number of open groups is the difference of
the numbers of parentheses. -/
theorem depthAt_add_count (h : ∀ m < n, 0 < depthAt depth bytes m) :
    depthAt depth bytes n + (bytes.take n).count (ascii ')') =
      depth + (bytes.take n).count (ascii '(') := by
  induction n generalizing depth bytes with
  | zero => rfl
  | succ n ih =>
      cases bytes with
      | nil => rfl
      | cons b bytes =>
          have hdepth : 0 < depth := h 0 (Nat.succ_pos n)
          have hrest := @ih bytes (depthAfter depth b) fun m hm => h (m + 1) (Nat.succ_lt_succ hm)
          have hfirst := depthAfter_add hdepth b (bytes.take n)
          rw [depthAt_cons_succ, List.take_succ_cons]
          omega

section Group

variable {rest : List UInt8}

theorem endOfGroup_cons (rest : List UInt8) :
    endOfGroup (ascii '(' :: rest) = (closingEnd 1 rest).map (· + 1) := rfl

theorem depthAt_opening_succ : depthAt 0 (ascii '(' :: rest) (n + 1) = depthAt 1 rest n := rfl

theorem depthAt_pos (h : ∀ j < n, ¬(j < rest.length ∧ depthAt 1 rest (j + 1) = 0))
    (hn : n ≤ rest.length) : 0 < depthAt 1 rest n := by
  cases n with
  | zero => exact Nat.one_pos
  | succ j => exact Nat.pos_of_ne_zero fun hzero => h j (Nat.lt_succ_self j) ⟨hn, hzero⟩

theorem not_balanced_zero : ¬Balanced (ascii '(' :: rest) 0 := by
  rintro ⟨-, hcount⟩
  exact absurd hcount (by simp; decide)

theorem balanced_succ_iff (h : ∀ j < i, ¬(j < rest.length ∧ depthAt 1 rest (j + 1) = 0)) :
    (i < rest.length ∧ depthAt 1 rest (i + 1) = 0) ↔ Balanced (ascii '(' :: rest) (i + 1) := by
  have hopening : ∀ n, (ascii '(' :: rest.take n).count (ascii '(') =
      1 + (rest.take n).count (ascii '(') := by
    intro n
    rw [List.count_cons_self, Nat.add_comm]
  have hclosing : ∀ n, (ascii '(' :: rest.take n).count (ascii ')') =
      (rest.take n).count (ascii ')') := by
    intro n
    exact List.count_cons_of_ne (by decide)
  by_cases hi : i < rest.length
  · have hcount : depthAt 1 rest (i + 1) + (rest.take (i + 1)).count (ascii ')') =
        1 + (rest.take (i + 1)).count (ascii '(') := by
      apply depthAt_add_count
      intro m hm
      exact depthAt_pos (fun j hj => h j (by omega)) (by omega)
    constructor
    · rintro ⟨-, hzero⟩
      refine ⟨Nat.succ_lt_succ hi, ?_⟩
      rw [List.take_succ_cons, hopening, hclosing]
      omega
    · rintro ⟨-, heq⟩
      rw [List.take_succ_cons, hopening, hclosing] at heq
      exact ⟨hi, by omega⟩
  · constructor
    · rintro ⟨hlt, -⟩
      exact absurd hlt hi
    · rintro ⟨hlt, -⟩
      exact absurd (Nat.lt_of_succ_lt_succ hlt) hi

theorem first_endOfGroup (rest : List UInt8) :
    First (Balanced (ascii '(' :: rest)) (endOfGroup (ascii '(' :: rest)) := by
  have hclosing := (first_closingEnd Nat.one_pos rest).congr fun i hi => balanced_succ_iff hi
  exact .succ not_balanced_zero hclosing

theorem depthAt_pos_of_closing (hbyte : (ascii '(' :: rest)[n]? = some (ascii ')'))
    (hn : ∀ i, endOfGroup (ascii '(' :: rest) = some i → n ≤ i) :
    0 < depthAt 0 (ascii '(' :: rest) n := by
  cases n with
  | zero => exact absurd (Option.some.inj hbyte) (by decide)
  | succ m =>
      have hm : m < rest.length :=
        Nat.lt_of_succ_lt_succ (List.getElem?_eq_some_iff.mp hbyte).1
      have hbefore := (first_closingEnd Nat.one_pos rest).not_before (n := m) (by
        intro i hi
        have hle := hn (i + 1) (by rw [endOfGroup_cons, hi]; rfl)
        omega)
      rw [depthAt_opening_succ]
      exact depthAt_pos hbefore (Nat.le_of_lt hm)

end Group

/-- Outside literals the count is one group deeper than the search at top level. -/
theorem closingEnd_succ_eq_find (hdouble : ascii '"' ∉ bytes) (hsingle : ascii '\'' ∉ bytes) :
    closingEnd (depth + 1) bytes = find (ascii ')') (.outside depth) bytes := by
  induction bytes generalizing depth with
  | nil => rfl
  | cons b bytes ih =>
      simp only [List.mem_cons, not_or] at hdouble hsingle
      have hquote : ¬(b = ascii '"' ∨ b = ascii '\'') :=
        not_or.mpr ⟨Ne.symm hdouble.1, Ne.symm hsingle.1⟩
      simp only [closingEnd, find, State.step, if_neg hquote]
      by_cases hclose : b = ascii ')'
      · subst hclose
        cases depth with
        | zero => rfl
        | succ depth =>
            have hstay : ∀ k, depthAfter (k + 1) (ascii ')') = k := fun k => rfl
            simp only [hstay, ih hdouble.2 hsingle.2]
            simp [State.start]
      · have hdepth : depthAfter (depth + 1) b = depthAfter depth b + 1 := by
          rw [depthAfter, depthAfter, if_neg hclose, if_neg hclose]
          split
          · rfl
          · rfl
        rw [if_neg fun h => hclose h.1, if_neg fun h => hclose h.2, hdepth,
          ih hdouble.2 hsingle.2]

theorem ascii_mem_toBytes_iff {c : Char} (hc : c.toNat < 0x80) (text : Text) :
    ascii c ∈ text.toBytes ↔ c ∈ text := by
  rw [← List.count_pos_iff, ← List.count_pos_iff, ascii, Utf8.count_toBytes hc]

/-- The group at the front of a text ends where as many parentheses are closed as opened for the
first time. No parenthesis before that closes a group that is not open. Without literals it is the
same place that the search at top level behind the opening parenthesis finds. -/
theorem endOfGroup_first_balance (inner : Text) :
    let text : Text := '(' :: inner
    (∀ i, Delimiter.endOfGroup text = some i ↔
      Balanced text.toBytes i ∧ ∀ j < i, ¬Balanced text.toBytes j) ∧
    (Delimiter.endOfGroup text = none ↔ ∀ i, ¬Balanced text.toBytes i) ∧
    (∀ n, text.toBytes[n]? = some (ascii ')') →
      (∀ i, Delimiter.endOfGroup text = some i → n ≤ i) → 0 < depthAt 0 text.toBytes n) ∧
    ('"' ∉ text → '\'' ∉ text → Delimiter.endOfGroup text =
      (Delimiter.findTopLevel inner (ascii ')')).map (· + 1)) := by
  intro text
  have hbytes : text.toBytes = ascii '(' :: inner.toBytes := toBytes_cons_of_lt (by decide) inner
  have hfirst := first_endOfGroup inner.toBytes
  rw [← endOfGroup_toBytes, findTopLevel_eq_find, hbytes]
  refine ⟨fun i => hfirst.eq_some_iff, hfirst.eq_none_iff, ?_, ?_⟩
  · intro n hbyte hn
    exact depthAt_pos_of_closing hbyte hn
  · intro hdouble hsingle
    have hdouble' : ascii '"' ∉ inner.toBytes := by
      rw [ascii_mem_toBytes_iff (by decide)]
      exact fun hmem => hdouble (List.mem_cons_of_mem _ hmem)
    have hsingle' : ascii '\'' ∉ inner.toBytes := by
      rw [ascii_mem_toBytes_iff (by decide)]
      exact fun hmem => hsingle (List.mem_cons_of_mem _ hmem)
    rw [endOfGroup_cons, closingEnd_succ_eq_find hdouble' hsingle']
    rfl

theorem endOfGroup_nestedCall :
    let text : Text := '(' :: "é, f(x)) + (y)".toList
    Delimiter.endOfGroup text = some 9 ∧
      (Balanced text.toBytes 9 ∧ ∀ j < 9, ¬Balanced text.toBytes j) ∧
      0 < depthAt 0 text.toBytes 8 ∧ 0 < depthAt 0 text.toBytes 9 := by
  intro text
  obtain ⟨hsome, -, hopen, hagree⟩ := endOfGroup_first_balance "é, f(x)) + (y)".toList
  have hend : Delimiter.endOfGroup text = some 9 :=
    (hagree (by decide) (by decide)).trans (by decide +kernel)
  have hclosed : ∀ n ≤ 9, ∀ i, Delimiter.endOfGroup text = some i → n ≤ i := by
    intro n hn i hi
    rwa [← Option.some.inj (hend.symm.trans hi)]
  exact ⟨hend, (hsome 9).mp hend, hopen 8 (by decide) (hclosed 8 (by decide)),
    hopen 9 (by decide) (hclosed 9 (by decide))⟩

end LogTemplate.Delimiter.Bytes
