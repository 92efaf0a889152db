import LogTemplate.Proofs.Delimiter.Bytes

/-!
The search at top level reads each byte of a text once. An automaton that takes the bytes one after
the other, and never looks ahead for the end of a literal, stops at the same byte. The bytes of a
character above 127 leave it where it stands, so it keeps pace with the reader of characters.

Two parts of a text are searched one after the other wherever the automaton is back at its start
between them.
-/

namespace LogTemplate.Delimiter.Bytes

/-- The answer of a search for the first index with a property. -/
inductive First (p : Nat → Prop) : Option Nat → Prop where
  | none (absent : ∀ i, ¬p i) : First p none
  | some {i : Nat} (holds : p i) (before : ∀ j < i, ¬p j) : First p (some i)

namespace First

variable {p : Nat → Prop} {answer : Option Nat}

theorem zero (h : p 0) : First p (Option.some 0) :=
  .some h fun _ hj => absurd hj (Nat.not_lt_zero _)

theorem succ (hzero : ¬p 0) (h : First (fun i => p (i + 1)) answer) :
    First p (answer.map (· + 1)) := by
  cases h with
  | none absent =>
      refine .none fun i => ?_
      cases i with
      | zero => exact hzero
      | succ i => exact absent i
  | some holds before =>
      refine .some holds fun j hj => ?_
      cases j with
      | zero => exact hzero
      | succ j => exact before j (Nat.lt_of_succ_lt_succ hj)

theorem eq_some_iff {i : Nat} (h : First p answer) :
    answer = Option.some i ↔ p i ∧ ∀ j < i, ¬p j := by
  cases h with
  | none absent =>
      constructor
      · intro heq
        cases heq
      · rintro ⟨hi, -⟩
        exact absurd hi (absent i)
  | @some k holds before =>
      rw [Option.some_inj]
      constructor
      · rintro rfl
        exact ⟨holds, before⟩
      · rintro ⟨hi, hbefore⟩
        rcases Nat.lt_trichotomy k i with hlt | heq | hgt
        · exact absurd holds (hbefore k hlt)
        · exact heq
        · exact absurd hi (before i hgt)

theorem eq_none_iff (h : First p answer) : answer = Option.none ↔ ∀ i, ¬p i := by
  cases h with
  | none absent => exact ⟨fun _ => absent, fun _ => rfl⟩
  | @some k holds before =>
      constructor
      · intro heq
        cases heq
      · intro habsent
        exact absurd holds (habsent k)

theorem not_before {n : Nat} (h : First p answer) (hn : ∀ i, answer = Option.some i → n ≤ i) :
    ∀ j < n, ¬p j := by
  intro j hj
  cases h with
  | none absent => exact absent j
  | some holds before => exact before j (Nat.lt_of_lt_of_le hj (hn _ rfl))

theorem congr {q : Nat → Prop} (h : First p answer)
    (hiff : ∀ i, (∀ j < i, ¬p j) → (p i ↔ q i)) : First q answer := by
  cases h with
  | none absent =>
      refine .none fun i hi => absent i ?_
      exact (hiff i fun j _ => absent j).mpr hi
  | @some k holds before =>
      refine .some ((hiff k before).mp holds) fun i hi hq => before i hi ?_
      exact (hiff i fun j hj => before j (Nat.lt_trans hj hi)).mpr hq

end First

/-- Where the automaton stands between two bytes: outside literals, or inside one with its quote and
the byte read last. In both cases it knows how many groups are open. -/
inductive State where
  | outside (depth : Nat)
  | inside (quote previous : UInt8) (depth : Nat)
  deriving DecidableEq, Repr

namespace State

def start : State := .outside 0

def step : State → UInt8 → State
  | .outside depth, b =>
      if b = ascii '"' ∨ b = ascii '\'' then .inside b b depth else .outside (depthAfter depth b)
  | .inside quote previous depth, b =>
      if b = quote ∧ previous ≠ ascii '\\' then .outside depth else .inside quote b depth

def run (state : State) (bytes : List UInt8) : State :=
  bytes.foldl step state

@[simp]
theorem run_nil (state : State) : state.run [] = state := rfl

@[simp]
theorem run_cons (state : State) (b : UInt8) (bytes : List UInt8) :
    state.run (b :: bytes) = (state.step b).run bytes := rfl

@[simp]
theorem run_append (state : State) (u v : List UInt8) :
    state.run (u ++ v) = (state.run u).run v :=
  List.foldl_append

end State

open State

variable {target b : UInt8} {state : State} {bytes : List UInt8} {i : Nat}

/-- After `i` bytes the automaton is outside literals and groups, and the next byte is `target`. -/
structure Hit (target : UInt8) (state : State) (bytes : List UInt8) (i : Nat) : Prop where
  run_eq : state.run (bytes.take i) = start
  byte_eq : bytes[i]? = some target

instance (target : UInt8) (state : State) (bytes : List UInt8) (i : Nat) :
    Decidable (Hit target state bytes i) :=
  decidable_of_iff (state.run (bytes.take i) = start ∧ bytes[i]? = some target)
    ⟨fun ⟨hrun, hbyte⟩ => ⟨hrun, hbyte⟩, fun ⟨hrun, hbyte⟩ => ⟨hrun, hbyte⟩⟩

/-- The number of bytes that the automaton takes before it meets `target` outside literals and
groups. -/
def find (target : UInt8) : State → List UInt8 → Option Nat
  | _, [] => none
  | state, b :: bytes =>
      if state = start ∧ b = target then some 0
      else (find target (state.step b) bytes).map (· + 1)

theorem hit_zero_iff : Hit target state (b :: bytes) 0 ↔ state = start ∧ b = target := by
  constructor
  · rintro ⟨hrun, hbyte⟩
    exact ⟨hrun, by simpa using hbyte⟩
  · rintro ⟨hstate, rfl⟩
    exact ⟨hstate, rfl⟩

theorem hit_succ_iff :
    Hit target state (b :: bytes) (i + 1) ↔ Hit target (state.step b) bytes i := by
  constructor
  · rintro ⟨hrun, hbyte⟩
    exact ⟨hrun, by simpa using hbyte⟩
  · rintro ⟨hrun, hbyte⟩
    exact ⟨hrun, by simpa using hbyte⟩

theorem first_find (target : UInt8) (state : State) (bytes : List UInt8) :
    First (Hit target state bytes) (find target state bytes) := by
  induction bytes generalizing state with
  | nil =>
      refine .none fun i hhit => ?_
      have hbyte := hhit.byte_eq
      simp at hbyte
  | cons b bytes ih =>
      rw [find]
      split
      · rename_i hzero
        exact .zero (hit_zero_iff.mpr hzero)
      · rename_i hzero
        refine .succ (fun hhit => hzero (hit_zero_iff.mp hhit)) ?_
        simpa only [hit_succ_iff] using ih (state.step b)

theorem find_append (h : find target state bytes = none) (rest : List UInt8) :
    find target state (bytes ++ rest) =
      (find target (state.run bytes) rest).map (bytes.length + ·) := by
  induction bytes generalizing state with
  | nil => simp
  | cons b bytes ih =>
      rw [List.cons_append]
      rw [find] at h ⊢
      split at h
      · cases h
      · rename_i hmiss
        rw [if_neg hmiss, ih (Option.map_eq_none_iff.mp h), Option.map_map, run_cons]
        congr 1
        funext n
        simp only [Function.comp_apply, List.length_cons]
        omega

theorem find_inside_eq_none {quote previous : UInt8} {depth : Nat}
    (h : ∀ k : Nat, bytes[k]? = some quote → (previous :: bytes)[k]? = some (ascii '\\')) :
    find target (.inside quote previous depth) bytes = none := by
  induction bytes generalizing previous with
  | nil => rfl
  | cons b bytes ih =>
      have hopen : ¬(b = quote ∧ previous ≠ ascii '\\') := by
        rintro ⟨rfl, hprevious⟩
        exact hprevious (by simpa using h 0 rfl)
      have hstep : (State.inside quote previous depth).step b = .inside quote b depth := by
        rw [step, if_neg hopen]
      have hmiss : ¬(State.inside quote previous depth = start ∧ b = target) := by
        simp [start]
      rw [find, if_neg hmiss, hstep, ih]
      · rfl
      · intro k hk
        simpa using h (k + 1) (by simpa using hk)

theorem find_append_of_some (h : find target state bytes = some i) (rest : List UInt8) :
    find target state (bytes ++ rest) = some i := by
  induction bytes generalizing state i with
  | nil => cases h
  | cons b bytes ih =>
      rw [List.cons_append]
      rw [find] at h ⊢
      split at h
      · rename_i hhit
        rw [if_pos hhit, h]
      · rename_i hmiss
        obtain ⟨j, hj, rfl⟩ := Option.map_eq_some_iff.mp h
        rw [if_neg hmiss, ih hj]
        rfl

/-- The automaton stands where the reader of characters stands. Of the byte read last it only
matters whether it is a backslash. -/
inductive Follows : Reader → State → Prop where
  | outside (depth : Nat) : Follows ⟨.outside, depth⟩ (.outside depth)
  | inside {quote previous : Char} {last : UInt8} (depth : Nat) (quote_lt : quote.toNat < 0x80)
      (backslash_iff : last = ascii '\\' ↔ previous = '\\') :
      Follows ⟨.inside quote previous, depth⟩ (.inside (ascii quote) last depth)

namespace Follows

variable {reader : Reader} {c : Char}

theorem eq_fresh_iff (h : Follows reader state) : reader = .fresh ↔ state = start := by
  cases h with
  | outside depth => simp [Reader.fresh, start]
  | inside depth quote_lt backslash_iff => simp [Reader.fresh, start]

theorem step_ascii (h : Follows reader state) (hc : c.toNat < 0x80) :
    Follows (reader.step c) (state.step (ascii c)) := by
  cases h with
  | outside depth =>
      simp only [Reader.step, State.step, ascii_inj hc (by decide : '"'.toNat < 0x80),
        ascii_inj hc (by decide : '\''.toNat < 0x80), depthAfter_ascii hc]
      split
      · exact .inside depth hc (ascii_inj hc (by decide))
      · exact .outside _
  | inside depth quote_lt backslash_iff =>
      simp only [Reader.step, State.step, ascii_inj hc quote_lt, Ne, backslash_iff]
      split
      · exact .outside depth
      · exact .inside depth quote_lt (ascii_inj hc (by decide))

end Follows

section HighBytes

variable {depth : Nat} {quote previous : UInt8}

theorem step_outside (hb : 0x80 ≤ b.toNat) : (State.outside depth).step b = .outside depth := by
  have hquote : ¬(b = ascii '"' ∨ b = ascii '\'') := by
    rintro (h | h)
    · exact ne_ascii hb (by decide) h
    · exact ne_ascii hb (by decide) h
  rw [step, if_neg hquote, depthAfter_of_le hb]

theorem step_inside (hb : 0x80 ≤ b.toNat) (hquote : quote.toNat < 0x80) :
    (State.inside quote previous depth).step b = .inside quote b depth := by
  have hne : b ≠ quote := by
    rintro rfl
    omega
  rw [step, if_neg fun h => hne h.1]

theorem run_outside (hbytes : ∀ b ∈ bytes, 0x80 ≤ b.toNat) :
    (State.outside depth).run bytes = .outside depth := by
  induction bytes with
  | nil => rfl
  | cons b bytes ih =>
      rw [List.forall_mem_cons] at hbytes
      rw [run_cons, step_outside hbytes.1, ih hbytes.2]

theorem run_inside (hbytes : ∀ b ∈ bytes, 0x80 ≤ b.toNat) (hquote : quote.toNat < 0x80) :
    (State.inside quote previous depth).run bytes =
      .inside quote (bytes.getLast?.getD previous) depth := by
  induction bytes generalizing previous with
  | nil => rfl
  | cons b bytes ih =>
      rw [List.forall_mem_cons] at hbytes
      rw [run_cons, step_inside hbytes.1 hquote, ih hbytes.2, List.getLast?_cons]
      rfl

theorem find_outside (hbytes : ∀ b ∈ bytes, 0x80 ≤ b.toNat) :
    find target (.outside depth) bytes = if depth = 0 then bytes.idxOf? target else none := by
  induction bytes with
  | nil => simp [find]
  | cons b bytes ih =>
      rw [List.forall_mem_cons] at hbytes
      rw [find, step_outside hbytes.1, ih hbytes.2, List.idxOf?_cons]
      by_cases hdepth : depth = 0
      · subst hdepth
        by_cases htarget : b = target
        · simp [start, htarget]
        · simp [start, htarget]
      · simp [start, hdepth]

theorem find_inside (hbytes : ∀ b ∈ bytes, 0x80 ≤ b.toNat) (hquote : quote.toNat < 0x80) :
    find target (.inside quote previous depth) bytes = none := by
  apply find_inside_eq_none
  intro k hk
  have hle := hbytes quote (List.mem_of_getElem? hk)
  omega

end HighBytes

/-- The offset of the first `target` in a text that is cut before the character that holds it. -/
def offset (target : UInt8) (parts : Text × Text) : Option Nat := do
  let c ← parts.2.head?
  let within ← (String.utf8EncodeChar c).idxOf? target
  return parts.1.byteSize + within

namespace Follows

variable {reader : Reader}

/-- The automaton takes all bytes of a character and follows the reader over it. -/
theorem step (h : Follows reader state) (c : Char) :
    Follows (reader.step c) (state.run (String.utf8EncodeChar c)) := by
  rcases Nat.lt_or_ge c.toNat 0x80 with hc | hc
  · rw [Utf8.utf8EncodeChar_of_lt hc]
    exact h.step_ascii hc
  · have hbytes := Utf8.le_toNat_of_mem_utf8EncodeChar hc
    cases h with
    | outside depth =>
        have hquote : ¬(c = '"' ∨ c = '\'') :=
          not_or.mpr ⟨ne_of_le_toNat hc (by decide), ne_of_le_toNat hc (by decide)⟩
        rw [run_outside hbytes, Reader.step, if_neg hquote, depthAfter_of_le_toNat hc]
        exact .outside depth
    | @inside quote previous last depth quote_lt backslash_iff =>
        have hquote : ¬(c = quote ∧ previous ≠ '\\') := fun hclose =>
          ne_of_le_toNat hc quote_lt hclose.1
        simp only [run_inside hbytes (by rwa [toNat_ascii quote_lt]), Reader.step, if_neg hquote]
        exact .inside depth quote_lt (getLast?_utf8EncodeChar c last)

theorem find_utf8EncodeChar (h : Follows reader state) (target : UInt8) (c : Char) :
    find target state (String.utf8EncodeChar c) =
      if reader = .fresh then (String.utf8EncodeChar c).idxOf? target else none := by
  rcases Nat.lt_or_ge c.toNat 0x80 with hc | hc
  · rw [Utf8.utf8EncodeChar_of_lt hc, find, find, List.idxOf?_cons]
    by_cases hstate : state = start
    · simp [hstate, h.eq_fresh_iff.mpr hstate]
    · simp [hstate, mt h.eq_fresh_iff.mp hstate]
  · have hbytes := Utf8.le_toNat_of_mem_utf8EncodeChar hc
    cases h with
    | outside depth =>
        rw [find_outside hbytes]
        simp [Reader.fresh]
    | inside depth quote_lt backslash_iff =>
        rw [find_inside hbytes (by rwa [toNat_ascii quote_lt])]
        simp [Reader.fresh]

theorem find_toBytes (h : Follows reader state) (target : UInt8) (text : Text) :
    find target state text.toBytes =
      (Reader.search (fun c => (String.utf8EncodeChar c).contains target) reader text).bind
        (offset target) := by
  induction text generalizing reader state with
  | nil => rfl
  | cons c cs ih =>
      have hfind := h.find_utf8EncodeChar target c
      rw [toBytes_cons, Reader.search]
      split
      · rename_i hhit
        obtain ⟨hfresh, hmem⟩ := hhit
        rw [if_pos hfresh] at hfind
        obtain ⟨within, hwithin⟩ : ∃ i, (String.utf8EncodeChar c).idxOf? target = some i := by
          rw [← Option.isSome_iff_exists, List.isSome_idxOf?]
          simpa using hmem
        rw [find_append_of_some (hfind.trans hwithin)]
        simp [offset, hwithin]
      · rename_i hmiss
        have hnone : find target state (String.utf8EncodeChar c) = none := by
          rw [hfind]
          split
          · rename_i hfresh
            rw [List.idxOf?_eq_none_iff]
            intro hmem
            exact hmiss ⟨hfresh, by simpa using hmem⟩
          · rfl
        rw [find_append hnone, ih (h.step c), String.length_utf8EncodeChar, Option.bind_map]
        cases Reader.search (fun c => (String.utf8EncodeChar c).contains target)
            (reader.step c) cs with
        | none => rfl
        | some parts =>
            obtain ⟨before, found⟩ := parts
            simp [offset, Option.map_bind, Function.comp_def, Nat.add_assoc]

end Follows

theorem findTopLevel_eq_find (text : Text) (target : UInt8) :
    Delimiter.findTopLevel text target = find target start text.toBytes := by
  rw [start, (Follows.outside 0).find_toBytes, ← splitTopLevel_eq_search]
  rfl

theorem getLast?_of_run {quote previous : UInt8} {depth : Nat}
    (h : start.run bytes = .inside quote previous depth) : bytes.getLast? = some previous := by
  rcases List.eq_nil_or_concat bytes with rfl | ⟨front, b, rfl⟩
  · simp [start] at h
  · rw [List.concat_eq_append, run_append, run_cons, run_nil] at h
    rw [List.concat_eq_append, List.getLast?_concat]
    generalize start.run front = state at h
    cases state with
    | outside depth' =>
        rw [step] at h
        split at h
        · injection h with _ hprevious
          rw [hprevious]
        · cases h
    | inside quote' previous' depth' =>
        rw [step] at h
        split at h
        · cases h
        · injection h with _ hprevious
          rw [hprevious]

theorem find_take_eq_none {n : Nat} (h : ∀ i < n, ¬Hit target state bytes i) :
    find target state (bytes.take n) = none := by
  rw [(first_find target state (bytes.take n)).eq_none_iff]
  rintro i ⟨hrun, hbyte⟩
  rw [List.getElem?_take] at hbyte
  split at hbyte
  · rename_i hi
    rw [List.take_take, Nat.min_eq_left (Nat.le_of_lt hi)] at hrun
    exact h i hi ⟨hrun, hbyte⟩
  · cases hbyte

theorem find_eq_none_of_unclosed {n : Nat} {quote previous : UInt8} {depth : Nat}
    (hmiss : ∀ i < n, ¬Hit target start bytes i)
    (hrun : start.run (bytes.take n) = .inside quote previous depth)
    (hopen : ∀ k < bytes.length, n ≤ k → bytes[k]? = some quote →
      bytes[k - 1]? = some (ascii '\\')) :
    find target start bytes = none := by
  have hlast := getLast?_of_run hrun
  have hrest : find target (.inside quote previous depth) (bytes.drop n) = none := by
    apply find_inside_eq_none
    intro k hk
    rw [List.getElem?_drop] at hk
    have hlt : n + k < bytes.length := (List.getElem?_eq_some_iff.mp hk).1
    have hback := hopen (n + k) hlt (Nat.le_add_right n k) hk
    cases k with
    | zero =>
        rw [Nat.add_zero] at hback
        rw [List.getLast?_take] at hlast
        split at hlast
        · cases hlast
        · rw [hback, Option.some_or] at hlast
          exact hlast.symm
    | succ k =>
        rw [List.getElem?_cons_succ, List.getElem?_drop]
        exact hback
  rw [← List.take_append_drop n bytes, find_append (find_take_eq_none hmiss), hrun, hrest]
  rfl

/-- The search at top level finds the first byte at which the automaton is outside literals and
groups and meets `target`. A literal that is never closed hides what follows it, and a text that
brings the automaton back to its start only shifts the search behind it. -/
theorem findTopLevel_first_hit (text : Text) (target : UInt8) :
    (∀ i, Delimiter.findTopLevel text target = some i ↔
      Hit target start text.toBytes i ∧ ∀ j < i, ¬Hit target start text.toBytes j) ∧
    (Delimiter.findTopLevel text target = none ↔ ∀ i, ¬Hit target start text.toBytes i) ∧
    (∀ n quote previous depth, (∀ i < n, ¬Hit target start text.toBytes i) →
      start.run (text.toBytes.take n) = .inside quote previous depth →
      (∀ k < text.toBytes.length, n ≤ k → text.toBytes[k]? = some quote →
        text.toBytes[k - 1]? = some (ascii '\\')) →
      Delimiter.findTopLevel text target = none) ∧
    ∀ rest, (∀ i, ¬Hit target start text.toBytes i) → start.run text.toBytes = start →
      Delimiter.findTopLevel (text ++ rest) target =
        (Delimiter.findTopLevel rest target).map (text.byteSize + ·) := by
  have hfirst := first_find target start text.toBytes
  simp only [findTopLevel_eq_find]
  refine ⟨fun i => hfirst.eq_some_iff, hfirst.eq_none_iff, ?_, ?_⟩
  · intro n quote previous depth hmiss hrun hopen
    exact find_eq_none_of_unclosed hmiss hrun hopen
  · intro rest hmiss hrun
    have hbytes : Text.toBytes (text ++ rest) = text.toBytes ++ Text.toBytes rest :=
      List.flatMap_append
    rw [hbytes, find_append (hfirst.eq_none_iff.mpr hmiss), hrun, Utf8.length_toBytes]

theorem findTopLevel_behind_literal :
    Delimiter.findTopLevel "f('\\'', \"é;\") + x;".toList (ascii ';') = some 18 ∧
      Delimiter.findTopLevel "é\"a;\\\";".toList (ascii ';') = none := by
  have hfront := findTopLevel_first_hit "f('\\'', \"é;\")".toList (ascii ';')
  have hopen := findTopLevel_first_hit "é\"a;\\\";".toList (ascii ';')
  constructor
  · refine (hfront.2.2.2 " + x;".toList (hfront.2.1.mp ?_) ?_).trans ?_
    · decide +kernel
    · decide
    · decide +kernel
  · refine hopen.2.2.1 3 (ascii '"') (ascii '"') 0 ?_ ?_ ?_
    · decide
    · decide
    · decide

end LogTemplate.Delimiter.Bytes
