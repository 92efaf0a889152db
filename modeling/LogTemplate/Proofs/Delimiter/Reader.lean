import LogTemplate.Delimiter

/-!
The search at top level as an automaton that reads one character at a time. A reader is outside
literals or inside one, and it counts the groups that are open. Searches of a text in two parts, of
the same text at two depths, and of the same text from two starting points are compared by the
readers that make them.
-/

namespace LogTemplate.Delimiter

/-- Where a reader stands: outside literals, or inside one with its quote and the character read
last. -/
inductive Mode where
  | outside
  | inside (quote previous : Char)
  deriving DecidableEq, Repr

/-- A reader between two characters, with the number of open groups. -/
structure Reader where
  mode : Mode
  depth : Nat
  deriving DecidableEq, Repr

namespace Reader

def fresh : Reader := ⟨.outside, 0⟩

def step (reader : Reader) (c : Char) : Reader :=
  match reader.mode with
  | .outside =>
      if c = '"' ∨ c = '\'' then { reader with mode := .inside c c }
      else { reader with depth := depthAfter reader.depth c }
  | .inside quote previous =>
      if c = quote ∧ previous ≠ '\\' then { reader with mode := .outside }
      else { reader with mode := .inside quote c }

def run (reader : Reader) (text : Text) : Reader :=
  text.foldl step reader

/-- The text before the first character that satisfies `hit` where the reader is outside literals
and groups, and the text from that character on. -/
def search (hit : Char → Bool) : Reader → Text → Option (Text × Text)
  | _, [] => none
  | reader, c :: cs =>
      if reader = fresh ∧ hit c then some ([], c :: cs)
      else (search hit (reader.step c) cs).map fun (before, found) => (c :: before, found)

@[simp]
theorem run_nil (reader : Reader) : reader.run [] = reader := rfl

@[simp]
theorem run_cons (reader : Reader) (c : Char) (cs : Text) :
    reader.run (c :: cs) = (reader.step c).run cs := rfl

@[simp]
theorem run_append (reader : Reader) (u v : Text) :
    reader.run (u ++ v) = (reader.run u).run v :=
  List.foldl_append

end Reader

open Reader

variable {hit : Char → Bool}

theorem search_inside (quote previous : Char) (depth : Nat) (cs : Text) :
    search hit ⟨.inside quote previous, depth⟩ cs =
      (splitLiteral quote previous cs).bind fun (body, rest) =>
        (search hit ⟨.outside, depth⟩ rest).map fun (before, found) =>
          (body ++ quote :: before, found) := by
  induction cs generalizing previous with
  | nil => rfl
  | cons c cs ih =>
      have hmode : (⟨.inside quote previous, depth⟩ : Reader) ≠ fresh := by
        simp [fresh]
      simp only [search, hmode, false_and, if_false, splitLiteral, step]
      by_cases hc : c = quote ∧ previous ≠ '\\'
      · rw [if_pos hc, if_pos hc, hc.1]
        rfl
      · rw [if_neg hc, if_neg hc, ih c]
        cases splitLiteral quote c cs with
        | none => rfl
        | some parts => simp [Function.comp_def]

theorem splitTopLevel_eq_search (depth : Nat) (text : Text) :
    splitTopLevel hit depth text = search hit ⟨.outside, depth⟩ text := by
  fun_induction splitTopLevel hit depth text with
  | case1 => rfl
  | case2 depth c cs hhit =>
      have hfresh : (⟨.outside, depth⟩ : Reader) = fresh ∧ hit c = true := by
        simpa [fresh, and_comm] using hhit
      rw [search, if_pos hfresh]
  | case3 depth c cs hhit hquote hopen =>
      have hfresh : ¬((⟨.outside, depth⟩ : Reader) = fresh ∧ hit c = true) := by
        simpa [fresh, and_comm] using hhit
      rw [search, if_neg hfresh, step, if_pos hquote, search_inside, hopen]
      rfl
  | case4 depth c cs hhit hquote body rest hclosed hlt ih =>
      have hfresh : ¬((⟨.outside, depth⟩ : Reader) = fresh ∧ hit c = true) := by
        simpa [fresh, and_comm] using hhit
      rw [search, if_neg hfresh, step, if_pos hquote, search_inside, hclosed, ih]
      simp [Function.comp_def]
  | case5 depth c cs hhit hquote ih =>
      have hfresh : ¬((⟨.outside, depth⟩ : Reader) = fresh ∧ hit c = true) := by
        simpa [fresh, and_comm] using hhit
      rw [search, if_neg hfresh, step, if_neg hquote, ih]

theorem cutAt_eq_search (target : Char) (text : Text) :
    cutAt target text =
      (search (· = target) fresh text).map fun (before, found) => (before, found.tail) := by
  rw [cutAt, splitTopLevel_eq_search]
  rfl

theorem search_append_of_some {reader : Reader} {u before found : Text} (v : Text)
    (h : search hit reader u = some (before, found)) :
    search hit reader (u ++ v) = some (before, found ++ v) := by
  induction u generalizing reader before with
  | nil => simp [search] at h
  | cons c u ih =>
      rw [List.cons_append]
      rw [search] at h ⊢
      split at h
      next hfresh =>
        obtain ⟨rfl, rfl⟩ := Prod.mk.inj (Option.some.inj h)
        rw [if_pos hfresh]
        rfl
      next hfresh =>
        obtain ⟨⟨tail, found'⟩, htail, heq⟩ := Option.map_eq_some_iff.mp h
        obtain ⟨rfl, rfl⟩ := Prod.mk.inj heq
        rw [if_neg hfresh, ih htail]
        rfl

theorem search_append_of_none {reader : Reader} {u : Text} (v : Text)
    (h : search hit reader u = none) :
    search hit reader (u ++ v) =
      (search hit (reader.run u) v).map fun (before, found) => (u ++ before, found) := by
  induction u generalizing reader with
  | nil => simp
  | cons c u ih =>
      rw [List.cons_append, run_cons]
      rw [search] at h ⊢
      split at h
      next => simp at h
      next hfresh =>
        rw [if_neg hfresh, ih (Option.map_eq_none_iff.mp h)]
        simp [Function.comp_def]

/-- A search stops at the first place where the reader is outside literals and groups and the
character is a hit. -/
theorem search_eq_some_iff {reader : Reader} {text before found : Text} :
    search hit reader text = some (before, found) ↔
      text = before ++ found ∧ search hit reader before = none ∧ reader.run before = fresh ∧
        ∃ c rest, found = c :: rest ∧ hit c = true := by
  constructor
  · intro h
    induction text generalizing reader before with
    | nil => simp [search] at h
    | cons c cs ih =>
        rw [search] at h
        split at h
        next hfresh =>
          obtain ⟨rfl, rfl⟩ := Prod.mk.inj (Option.some.inj h)
          exact ⟨rfl, rfl, hfresh.1, c, cs, rfl, hfresh.2⟩
        next hfresh =>
          obtain ⟨⟨tail, found'⟩, htail, heq⟩ := Option.map_eq_some_iff.mp h
          obtain ⟨rfl, rfl⟩ := Prod.mk.inj heq
          obtain ⟨rfl, hnone, hrun, hhit⟩ := ih htail
          refine ⟨rfl, ?_, hrun, hhit⟩
          rw [search, if_neg hfresh, hnone]
          rfl
  · rintro ⟨rfl, hnone, hrun, c, rest, rfl, hhit⟩
    rw [search_append_of_none _ hnone, hrun, search, if_pos ⟨rfl, hhit⟩]
    simp

theorem cutAt_eq_some_iff {target : Char} {text before rest : Text} :
    cutAt target text = some (before, rest) ↔
      text = before ++ target :: rest ∧ search (· = target) fresh before = none ∧
        fresh.run before = fresh := by
  rw [cutAt_eq_search, Option.map_eq_some_iff]
  constructor
  · rintro ⟨⟨before', found⟩, hsearch, heq⟩
    obtain ⟨rfl, rfl⟩ := Prod.mk.inj heq
    obtain ⟨rfl, hnone, hrun, c, rest, rfl, hhit⟩ := search_eq_some_iff.mp hsearch
    obtain rfl : c = target := by simpa using hhit
    exact ⟨rfl, hnone, hrun⟩
  · rintro ⟨rfl, hnone, hrun⟩
    refine ⟨(before, target :: rest), search_eq_some_iff.mpr ?_, rfl⟩
    exact ⟨rfl, hnone, hrun, target, rest, rfl, by simp⟩

theorem cutAt_eq_none_iff {target : Char} {text : Text} :
    cutAt target text = none ↔ search (· = target) fresh text = none := by
  rw [cutAt_eq_search, Option.map_eq_none_iff]

def Plain (c : Char) : Prop :=
  c ≠ '"' ∧ c ≠ '\'' ∧ c ≠ '(' ∧ c ≠ ')'

instance (c : Char) : Decidable (Plain c) :=
  inferInstanceAs (Decidable (c ≠ '"' ∧ c ≠ '\'' ∧ c ≠ '(' ∧ c ≠ ')'))

theorem run_of_plain {u : Text} (depth : Nat) (h : ∀ c ∈ u, Plain c) :
    (⟨.outside, depth⟩ : Reader).run u = ⟨.outside, depth⟩ := by
  induction u with
  | nil => rfl
  | cons c u ih =>
      obtain ⟨hdouble, hsingle, hopen, hclose⟩ := h c (by simp)
      have hstep : (⟨.outside, depth⟩ : Reader).step c = ⟨.outside, depth⟩ := by
        simp [step, depthAfter, hdouble, hsingle, hopen, hclose]
      rw [run_cons, hstep]
      exact ih fun d hd => h d (by simp [hd])

theorem search_eq_none_of_not_mem {target : Char} {u : Text} (reader : Reader) (h : target ∉ u) :
    search (· = target) reader u = none := by
  induction u generalizing reader with
  | nil => rfl
  | cons c u ih =>
      have hc : ¬(reader = fresh ∧ decide (c = target) = true) := by
        rintro ⟨-, heq⟩
        exact h (by simp [of_decide_eq_true heq])
      rw [search, if_neg hc, ih (reader.step c) fun hmem => h (List.mem_cons_of_mem c hmem)]
      rfl

namespace Reader

def deepen (k : Nat) (reader : Reader) : Reader :=
  { reader with depth := reader.depth + k }

theorem step_deepen {k : Nat} {reader : Reader} {c : Char} (h : ¬(reader = fresh ∧ c = ')')) :
    (reader.deepen k).step c = (reader.step c).deepen k := by
  obtain ⟨mode, depth⟩ := reader
  cases mode with
  | inside quote previous =>
      simp only [deepen, step]
      split <;> rfl
  | outside =>
      simp only [deepen, step]
      split
      · rfl
      · simp only [fresh, mk.injEq, true_and, not_and] at h
        simp only [depthAfter, mk.injEq, true_and]
        split
        · omega
        · split
          · rename_i hclose
            have hdepth : depth ≠ 0 := fun hzero => h hzero hclose
            omega
          · rfl

/-- The first reader has read the same literals and has no more groups open. -/
structure Within (a b : Reader) : Prop where
  mode : a.mode = b.mode
  depth : a.depth ≤ b.depth

theorem Within.step {a b : Reader} (h : Within a b) (c : Char) : Within (a.step c) (b.step c) := by
  obtain ⟨mode, depth⟩ := a
  obtain ⟨mode', depth'⟩ := b
  obtain ⟨rfl, hdepth⟩ : mode = mode' ∧ depth ≤ depth' := ⟨h.mode, h.depth⟩
  cases mode with
  | inside quote previous =>
      simp only [Reader.step]
      split
      · exact ⟨rfl, hdepth⟩
      · exact ⟨rfl, hdepth⟩
  | outside =>
      simp only [Reader.step]
      split
      · exact ⟨rfl, hdepth⟩
      · refine ⟨rfl, ?_⟩
        simp only [depthAfter]
        split
        · omega
        · split
          · omega
          · exact hdepth

theorem Within.run {a b : Reader} (h : Within a b) (u : Text) : Within (a.run u) (b.run u) := by
  induction u generalizing a b with
  | nil => exact h
  | cons c u ih => exact ih (h.step c)

theorem Within.eq_fresh {a : Reader} (h : Within a fresh) : a = fresh := by
  obtain ⟨mode, depth⟩ := a
  obtain ⟨hmode, hdepth⟩ : mode = .outside ∧ depth ≤ 0 := ⟨h.mode, h.depth⟩
  simp [fresh, hmode, Nat.le_zero.mp hdepth]

end Reader

/-- Before the parenthesis that closes the innermost group, a reader inside `k` more groups reads
the same literals and ends with those `k` groups open. -/
theorem run_deepen_of_search_closing {k : Nat} {reader : Reader} {text : Text}
    (hnone : search (· = ')') reader text = none) :
    (reader.deepen k).run text = (reader.run text).deepen k := by
  induction text generalizing reader with
  | nil => rfl
  | cons c cs ih =>
      rw [search] at hnone
      split at hnone
      next => simp at hnone
      next hfresh =>
        have hclose : ¬(reader = fresh ∧ c = ')') := by simpa using hfresh
        rw [run_cons, run_cons, step_deepen hclose]
        exact ih (Option.map_eq_none_iff.mp hnone)

theorem search_deepen_eq_none {k : Nat} (hk : 0 < k) {reader : Reader} {text : Text}
    (hnone : search (· = ')') reader text = none) :
    search hit (reader.deepen k) text = none := by
  induction text generalizing reader with
  | nil => rfl
  | cons c cs ih =>
      rw [search] at hnone
      split at hnone
      next => simp at hnone
      next hfresh =>
        have hclose : ¬(reader = fresh ∧ c = ')') := by simpa using hfresh
        have hdeep : ¬(reader.deepen k = fresh ∧ hit c = true) := by
          rintro ⟨heq, -⟩
          have hdepth : reader.depth + k = 0 := congrArg Reader.depth heq
          omega
        rw [search, if_neg hdeep, step_deepen hclose, ih (Option.map_eq_none_iff.mp hnone)]
        rfl

end LogTemplate.Delimiter
