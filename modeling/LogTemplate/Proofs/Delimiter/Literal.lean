import LogTemplate.Proofs.Delimiter.Reader

namespace LogTemplate

namespace Delimiter

/-- The text can be followed by the quote that closes a literal: each quote in it has a backslash
before it, and no backslash ends it. The first argument is the character before the text. -/
def Quotable : Char → Text → Prop
  | previous, [] => previous ≠ '\\'
  | previous, c :: cs => (c = '"' → previous = '\\') ∧ Quotable c cs

theorem splitLiteral_eq_some_iff {previous : Char} {body rest : Text} :
    splitLiteral '"' previous (body ++ '"' :: rest) = some (body, rest) ↔
      Quotable previous body := by
  induction body generalizing previous with
  | nil =>
      by_cases hprevious : previous = '\\'
      · subst hprevious
        simp [splitLiteral, Quotable]
      · simp [splitLiteral, Quotable, hprevious]
  | cons c body ih =>
      rw [List.cons_append, splitLiteral, Quotable, ← @ih c]
      by_cases hclose : c = '"' ∧ previous ≠ '\\'
      · simp [hclose]
      · rw [if_neg hclose, Option.map_eq_some_iff]
        constructor
        · rintro ⟨⟨tail, rest'⟩, htail, heq⟩
          obtain ⟨⟨-, rfl⟩, rfl⟩ : (c = c ∧ tail = body) ∧ rest' = rest := by simpa using heq
          exact ⟨fun hc => Decidable.byContradiction fun hp => hclose ⟨hc, hp⟩, htail⟩
        · rintro ⟨-, htail⟩
          exact ⟨(body, rest), htail, rfl⟩

theorem quotable_of_splitLiteral {previous : Char} {cs body rest : Text}
    (h : splitLiteral '"' previous cs = some (body, rest)) : Quotable previous body := by
  rw [← append_of_splitLiteral h] at h
  exact splitLiteral_eq_some_iff.mp h

theorem Quotable.of_ne {previous : Char} {u : Text} (h : Quotable '"' u)
    (hprevious : previous ≠ '\\') : Quotable previous u := by
  cases u with
  | nil => exact hprevious
  | cons c u =>
      refine ⟨fun hc => ?_, h.2⟩
      exact absurd (h.1 hc) (by decide)

theorem Quotable.head?_ne {u : Text} (h : Quotable '"' u) : u.head? ≠ some '"' := by
  intro hhead
  obtain ⟨v, rfl⟩ := List.head?_eq_some_iff.mp hhead
  exact absurd (h.1 rfl) (by decide)

theorem Quotable.append {previous : Char} {u v : Text} (hu : Quotable previous u)
    (hv : Quotable '"' v) : Quotable previous (u ++ v) := by
  induction u generalizing previous with
  | nil => exact hv.of_ne hu
  | cons c u ih => exact ⟨hu.1, ih hu.2⟩

theorem quotable_of_not_mem {previous : Char} {u : Text} (hprevious : previous ≠ '\\')
    (hquote : '"' ∉ u) (hbackslash : '\\' ∉ u) : Quotable previous u := by
  induction u generalizing previous with
  | nil => exact hprevious
  | cons c u ih =>
      simp only [List.mem_cons, not_or] at hquote hbackslash
      exact ⟨fun hc => absurd hc.symm hquote.1, ih (Ne.symm hbackslash.1) hquote.2 hbackslash.2⟩

theorem run_inside {quote previous : Char} {cs body rest : Text} (depth : Nat)
    (h : splitLiteral quote previous cs = some (body, rest)) :
    (⟨.inside quote previous, depth⟩ : Reader).run cs = (⟨.outside, depth⟩ : Reader).run rest := by
  induction cs generalizing previous body with
  | nil => simp [splitLiteral] at h
  | cons c cs ih =>
      rw [splitLiteral] at h
      rw [Reader.run_cons, Reader.step]
      split at h
      next hclose =>
        obtain ⟨-, rfl⟩ := Prod.mk.inj (Option.some.inj h)
        simp [hclose]
      next hclose =>
        obtain ⟨⟨tail, rest'⟩, htail, heq⟩ := Option.map_eq_some_iff.mp h
        obtain ⟨-, rfl⟩ := Prod.mk.inj heq
        simpa [hclose] using ih htail

theorem search_eq_none_of_append {hit : Char → Bool} {reader : Reader} {u v : Text}
    (h : Reader.search hit reader (u ++ v) = none) : Reader.search hit reader u = none := by
  cases hu : Reader.search hit reader u with
  | none => rfl
  | some parts =>
      rw [search_append_of_some v hu] at h
      cases h

/-- A reader outside literals and at a depth passes over the text when it looks for `target`. -/
structure Passed (target : Char) (depth : Nat) (u : Text) : Prop where
  search_eq : Reader.search (· = target) ⟨.outside, depth⟩ u = none
  run_eq : (⟨.outside, depth⟩ : Reader).run u = ⟨.outside, depth⟩

section Passed

variable {target : Char} {depth : Nat} {u v : Text}

theorem cutAt_eq_some_iff_passed {text before rest : Text} :
    cutAt target text = some (before, rest) ↔
      text = before ++ target :: rest ∧ Passed target 0 before := by
  rw [cutAt_eq_some_iff]
  exact ⟨fun ⟨htext, hsearch, hrun⟩ => ⟨htext, hsearch, hrun⟩,
    fun ⟨htext, hpassed⟩ => ⟨htext, hpassed.search_eq, hpassed.run_eq⟩⟩

theorem Passed.append (hu : Passed target depth u) (hv : Passed target depth v) :
    Passed target depth (u ++ v) := by
  constructor
  · rw [search_append_of_none v hu.search_eq, hu.run_eq, hv.search_eq]
    rfl
  · rw [Reader.run_append, hu.run_eq, hv.run_eq]

instance (text : Text) : Decidable (∀ c ∈ text, Plain c) :=
  List.decidableBAll Plain text

theorem passed_of_plain (hplain : ∀ c ∈ u, Plain c) (htarget : target ∉ u) :
    Passed target depth u :=
  ⟨search_eq_none_of_not_mem _ htarget, run_of_plain depth hplain⟩

theorem passed_quoted {body : Text} (h : Quotable '"' body) (htarget : target ≠ '"') :
    Passed target depth ('"' :: (body ++ ['"'])) := by
  have hliteral : splitLiteral '"' '"' (body ++ ['"']) = some (body, []) :=
    splitLiteral_eq_some_iff.mpr h
  have hstep : (⟨.outside, depth⟩ : Reader).step '"' = ⟨.inside '"' '"', depth⟩ := rfl
  constructor
  · rw [Reader.search, if_neg (by simp [htarget.symm]), hstep, search_inside, hliteral]
    rfl
  · rw [Reader.run_cons, hstep, run_inside depth hliteral, Reader.run_nil]

theorem Passed.group (h : Passed ')' 0 u) (htarget : target ≠ '(') :
    Passed target depth ('(' :: (u ++ [')'])) := by
  have hopen : (⟨.outside, depth⟩ : Reader).step '(' = Reader.fresh.deepen (depth + 1) := by
    simp [Reader.step, depthAfter, Reader.fresh, Reader.deepen]
  have hclose : (Reader.fresh.deepen (depth + 1)).step ')' = ⟨.outside, depth⟩ := by
    simp [Reader.step, depthAfter, Reader.fresh, Reader.deepen]
  have hrun : (Reader.fresh.deepen (depth + 1)).run u = Reader.fresh.deepen (depth + 1) := by
    have hdeepen := run_deepen_of_search_closing (k := depth + 1) h.search_eq
    rwa [h.run_eq] at hdeepen
  have hnone : Reader.search (· = target) (Reader.fresh.deepen (depth + 1)) u = none :=
    search_deepen_eq_none (Nat.succ_pos depth) h.search_eq
  constructor
  · have hdeep : Reader.fresh.deepen (depth + 1) ≠ Reader.fresh := by
      intro heq
      have hdepth := congrArg Reader.depth heq
      simp [Reader.fresh, Reader.deepen] at hdepth
    rw [Reader.search, if_neg (by simp [htarget.symm]), hopen, search_append_of_none _ hnone, hrun,
      Reader.search, if_neg fun hfresh => hdeep hfresh.1]
    rfl
  · rw [Reader.run_cons, hopen, Reader.run_append, hrun, Reader.run_cons, hclose, Reader.run_nil]

/-- A cut may fall before a text that is passed over at every depth, or behind it. In both cases it
falls at the same place when another such text stands there. -/
theorem cutAt_exchange {w before rest : Text} {x y : Text}
    (hmode : (Reader.fresh.run u).mode = .outside) (hx : ∀ depth, Passed target depth x)
    (hy : ∀ depth, Passed target depth y) (h : cutAt target (u ++ (x ++ w)) = some (before, rest)) :
    (∃ v, u = before ++ target :: v ∧ rest = v ++ (x ++ w) ∧
        cutAt target (u ++ (y ++ w)) = some (before, v ++ (y ++ w))) ∨
      ∃ v, before = u ++ (x ++ v) ∧ cutAt target (u ++ (y ++ w)) = some (u ++ (y ++ v), rest) := by
  rw [cutAt_eq_search, Option.map_eq_some_iff] at h
  obtain ⟨⟨before', found⟩, hsearch, heq⟩ := h
  obtain ⟨rfl, rfl⟩ := Prod.mk.inj heq
  cases hu : Reader.search (· = target) Reader.fresh u with
  | some parts =>
      obtain ⟨front, back⟩ := parts
      rw [search_append_of_some _ hu] at hsearch
      obtain ⟨rfl, rfl⟩ := Prod.mk.inj (Option.some.inj hsearch)
      obtain ⟨hsplit, -, -, c, v, rfl, hc⟩ := search_eq_some_iff.mp hu
      obtain rfl : c = target := by simpa using hc
      refine .inl ⟨v, hsplit, rfl, ?_⟩
      rw [cutAt_eq_search, search_append_of_some _ hu]
      rfl
  | none =>
      have hreader : Reader.fresh.run u = ⟨.outside, (Reader.fresh.run u).depth⟩ := by
        rw [← hmode]
      generalize (Reader.fresh.run u).depth = depth at hreader
      have hskip : ∀ z, (∀ depth, Passed target depth z) →
          Reader.search (· = target) Reader.fresh (u ++ (z ++ w)) =
            (Reader.search (· = target) ⟨.outside, depth⟩ w).map fun parts =>
              (u ++ (z ++ parts.1), parts.2) := by
        intro z hz
        rw [search_append_of_none _ hu, hreader, search_append_of_none _ (hz depth).search_eq,
          (hz depth).run_eq, Option.map_map]
        rfl
      rw [hskip x hx, Option.map_eq_some_iff] at hsearch
      obtain ⟨⟨front, found'⟩, hw, heq⟩ := hsearch
      obtain ⟨rfl, rfl⟩ := Prod.mk.inj heq
      refine .inr ⟨front, rfl, ?_⟩
      rw [cutAt_eq_search, hskip y hy, hw]
      rfl

end Passed

end Delimiter

end LogTemplate
