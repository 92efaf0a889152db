import LogTemplate.Text.Blank
import Mathlib.Data.List.TakeWhile

namespace LogTemplate.Text

def AllBlank (cs : Text) : Prop :=
  ∀ c ∈ cs, isBlank c = true

instance (cs : Text) : Decidable (AllBlank cs) :=
  decidable_of_iff (cs.all isBlank = true) List.all_eq_true

structure Trimmed (cs : Text) : Prop where
  head : ∀ c, cs.head? = some c → isBlank c = false
  last : ∀ c, cs.getLast? = some c → isBlank c = false

theorem exists_blank_append_trimStart (cs : Text) :
    ∃ u, AllBlank u ∧ cs = u ++ trimStart cs :=
  ⟨cs.takeWhile isBlank, fun _ hc => List.mem_takeWhile_imp hc,
    List.takeWhile_append_dropWhile.symm⟩

theorem exists_trimEnd_append_blank (cs : Text) :
    ∃ v, AllBlank v ∧ cs = trimEnd cs ++ v := by
  obtain ⟨u, hu, hcs⟩ := exists_blank_append_trimStart cs.reverse
  refine ⟨u.reverse, fun c hc => hu c (List.mem_reverse.mp hc), ?_⟩
  rw [trimEnd, ← List.reverse_append, ← trimStart, ← hcs, List.reverse_reverse]

theorem exists_blank_append_trim (cs : Text) :
    ∃ u v, AllBlank u ∧ AllBlank v ∧ cs = u ++ (trim cs ++ v) := by
  obtain ⟨u, hu, hstart⟩ := exists_blank_append_trimStart cs
  obtain ⟨v, hv, hend⟩ := exists_trimEnd_append_blank (trimStart cs)
  exact ⟨u, v, hu, hv, by rw [trim, ← hend, ← hstart]⟩

theorem trim_infix (cs : Text) : trim cs <:+: cs := by
  obtain ⟨u, v, -, -, hcs⟩ := exists_blank_append_trim cs
  exact ⟨u, v, by rw [List.append_assoc, ← hcs]⟩

theorem trimStart_blank_append {u v : Text} (hu : AllBlank u) :
    trimStart (u ++ v) = trimStart v :=
  List.dropWhile_append_of_pos hu

theorem trim_blank_append {u v : Text} (hu : AllBlank u) : trim (u ++ v) = trim v := by
  rw [trim, trimStart_blank_append hu, trim]

theorem trimEnd_append_blank {u v : Text} (hv : AllBlank v) : trimEnd (u ++ v) = trimEnd u := by
  have hrev : AllBlank v.reverse := fun c hc => hv c (List.mem_reverse.mp hc)
  have hdrop := trimStart_blank_append (v := u.reverse) hrev
  rw [trimEnd, List.reverse_append]
  exact congrArg List.reverse hdrop

theorem trimStart_eq_self {cs : Text} (h : ∀ c, cs.head? = some c → isBlank c = false) :
    trimStart cs = cs := by
  cases cs with
  | nil => rfl
  | cons c cs => simp [trimStart, h c rfl]

theorem trimEnd_eq_self {cs : Text} (h : ∀ c, cs.getLast? = some c → isBlank c = false) :
    trimEnd cs = cs := by
  have hrev : trimStart cs.reverse = cs.reverse := by
    apply trimStart_eq_self
    intro c hc
    exact h c (by simpa using hc)
  rw [trimEnd, ← trimStart, hrev, List.reverse_reverse]

theorem trim_eq_of_trimmed {u m v : Text} (hu : AllBlank u) (hv : AllBlank v) (hm : Trimmed m) :
    trim (u ++ (m ++ v)) = m := by
  rw [trim, trimStart_blank_append hu]
  cases m with
  | nil =>
      have hnil := trimStart_blank_append (v := []) hv
      rw [List.append_nil] at hnil
      rw [List.nil_append, hnil]
      rfl
  | cons c m =>
      have hstart : trimStart (c :: m ++ v) = c :: m ++ v :=
        trimStart_eq_self fun d hd => hm.head d (by simpa using hd)
      rw [hstart, trimEnd_append_blank hv, trimEnd_eq_self hm.last]

theorem trim_eq_self {cs : Text} (h : Trimmed cs) : trim cs = cs := by
  have hnil : AllBlank [] := fun _ hc => absurd hc List.not_mem_nil
  simpa using trim_eq_of_trimmed hnil hnil h

theorem trimmed_of_not_blank {cs : Text} (h : ∀ c ∈ cs, isBlank c = false) : Trimmed cs :=
  ⟨fun c hc => h c (List.mem_of_head? hc), fun c hc => h c (List.mem_of_getLast? hc)⟩

theorem trimmed_nil : Trimmed [] :=
  ⟨by simp, by simp⟩

private theorem head?_trimStart {cs : Text} {c : Char} (h : (trimStart cs).head? = some c) :
    isBlank c = false := by
  have hhead := List.head?_dropWhile_not isBlank cs
  rw [trimStart] at h
  rw [h] at hhead
  simpa using hhead

theorem getLast?_trimEnd {cs : Text} {c : Char} (h : (trimEnd cs).getLast? = some c) :
    isBlank c = false := by
  rw [trimEnd, List.getLast?_reverse] at h
  exact head?_trimStart h

theorem trim_append {u : Text} (v : Text) (hu : Trimmed u) (hne : u ≠ []) :
    trim (u ++ v) = u ++ trimEnd v := by
  have hstart : trimStart (u ++ v) = u ++ v := by
    apply trimStart_eq_self
    intro c hc
    obtain ⟨d, u, rfl⟩ := List.exists_cons_of_ne_nil hne
    exact hu.head c hc
  obtain ⟨blanks, hblanks, hv⟩ := exists_trimEnd_append_blank v
  have hsplit : u ++ v = (u ++ trimEnd v) ++ blanks := by rw [List.append_assoc, ← hv]
  have hend : trimEnd (u ++ v) = trimEnd (u ++ trimEnd v) := by
    rw [hsplit, trimEnd_append_blank hblanks]
  rw [trim, hstart, hend]
  apply trimEnd_eq_self
  intro c hc
  rw [List.getLast?_append] at hc
  cases hlast : (trimEnd v).getLast? with
  | none => exact hu.last c (by simpa [hlast] using hc)
  | some d =>
      obtain rfl : d = c := by simpa [hlast] using hc
      exact getLast?_trimEnd hlast

theorem exists_trim_append {u : Text} (v : Text) (hu : Trimmed u) :
    ∃ rest, trim (u ++ v) = u ++ rest := by
  by_cases hne : u = []
  · exact ⟨trim v, by rw [hne, List.nil_append, List.nil_append]⟩
  · exact ⟨trimEnd v, trim_append v hu hne⟩

theorem trimmed_trim (cs : Text) : Trimmed (trim cs) := by
  obtain ⟨v, hv, hend⟩ := exists_trimEnd_append_blank (trimStart cs)
  constructor
  · intro c hc
    have hhead : (trimStart cs).head? = some c := by
      rw [hend, List.head?_append, ← trim, hc]
      rfl
    exact head?_trimStart hhead
  · intro c hc
    rw [trim, trimEnd, List.getLast?_reverse] at hc
    exact head?_trimStart hc

theorem Trimmed.append {u v : Text} (hu : Trimmed u) (hv : Trimmed v) : Trimmed (u ++ v) := by
  constructor
  · intro c hc
    rw [List.head?_append] at hc
    cases hhead : u.head? with
    | none => exact hv.head c (by simpa [hhead] using hc)
    | some d => exact hu.head c (by simpa [hhead] using hc)
  · intro c hc
    rw [List.getLast?_append] at hc
    cases hlast : v.getLast? with
    | none => exact hu.last c (by simpa [hlast] using hc)
    | some d => exact hv.last c (by simpa [hlast] using hc)

theorem trimmed_flatten {ls : List Text} (h : ∀ l ∈ ls, Trimmed l) : Trimmed ls.flatten := by
  induction ls with
  | nil => exact trimmed_nil
  | cons l ls ih =>
      rw [List.flatten_cons]
      exact (h l (by simp)).append (ih fun m hm => h m (by simp [hm]))

theorem mem_trim_iff {cs : Text} {c : Char} (hc : isBlank c = false) :
    c ∈ trim cs ↔ c ∈ cs := by
  obtain ⟨u, v, hu, hv, hcs⟩ := exists_blank_append_trim cs
  have hnotu : c ∉ u := fun hmem => by simp [hu c hmem] at hc
  have hnotv : c ∉ v := fun hmem => by simp [hv c hmem] at hc
  constructor
  · intro hmem
    rw [hcs]
    simp [hmem]
  · intro hmem
    rw [hcs] at hmem
    simpa [hnotu, hnotv] using hmem

end LogTemplate.Text
