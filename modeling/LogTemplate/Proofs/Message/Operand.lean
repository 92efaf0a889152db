import LogTemplate.Message.Operand
import LogTemplate.Proofs.Delimiter.Group
import LogTemplate.Proofs.Delimiter.Literal
import LogTemplate.Proofs.Text.Trim
import Mathlib.Data.List.Infix

namespace LogTemplate

theorem Text.dropEnding_append (ending text : Text) :
    Text.dropEnding ending (text ++ ending) = text := by
  rw [Text.dropEnding, if_pos (List.isSuffixOf_iff_suffix.mpr ⟨text, rfl⟩), List.length_append,
    Nat.add_sub_cancel_right, List.take_left]

theorem Text.dropEnding_eq_self {ending text : Text} (h : ¬ending <:+ text) :
    Text.dropEnding ending text = text :=
  if_neg (mt List.isSuffixOf_iff_suffix.mp h)

namespace Operand

open Delimiter Text

def text : Operand → Text
  | .literal text => text
  | .group text => text
  | .bare text => text

variable {source rest text gap : Text} {operand : Operand} {operands : List Operand}
  {budget left : Nat}

structure BareText (text : Text) : Prop where
  head : ∃ c, text.head? = some c ∧ startsName c = true
  continues : ∀ c ∈ text, continuesBare c = true

/-- How an operand is written. A bare operand may be written with a conversion, and it must be when
its own text ends in one. -/
inductive Spelled : Operand → Text → Prop where
  | literal {body : Text} (quotable : Quotable '"' body) :
      Spelled (.literal body) ('"' :: (body ++ ['"']))
  | group {text : Text} (isGroup : IsGroup text) : Spelled (.group text) text
  | bare {text : Text} (bareText : BareText text) (plain : ¬conversion <:+ text) :
      Spelled (.bare text) text
  | converted {text : Text} (bareText : BareText text) : Spelled (.bare text) (text ++ conversion)

/-- What separates two operands that are written apart: a `+` among blanks. -/
def IsSeparator (text : Text) : Prop :=
  ∃ u v, AllBlank u ∧ AllBlank v ∧ text = u ++ '+' :: v

/-- What the reader passes over behind an operand: blanks and at most one `+` among them. -/
def IsGap (text : Text) : Prop :=
  AllBlank text ∨ IsSeparator text

/-- The text that follows an operand does not belong to it. Only a bare operand has no end of its
own. -/
def Ends (rest : Text) : Operand → Prop
  | .literal _ => True
  | .group _ => True
  | .bare _ => ∀ c, rest.head? = some c → continuesBare c = false

theorem continuesBare_iff {c : Char} : continuesBare c = true ↔ c ≠ '+' ∧ isBlank c = false := by
  simp [continuesBare]

theorem continuesBare_of_startsName {c : Char} (h : startsName c = true) :
    continuesBare c = true := by
  have hletter : 65 ≤ c.toNat ∧ c.toNat ≤ 90 ∨ 97 ≤ c.toNat ∧ c.toNat ≤ 122 ∨ c = '_' ∨
      c = '$' := by
    rw [startsName] at h
    delta Char.isAlpha at h
    delta Char.isUpper Char.isLower at h
    simpa [UInt32.le_iff_toNat_le, or_assoc] using h
  have hplus : c ≠ '+' := by
    rintro rfl
    exact absurd h (by decide)
  have hblank : isBlank c = false := by
    by_contra hblank
    have hcode : c.toNat ≤ 0x20 ∨ 0x85 ≤ c.toNat := by
      simp only [isBlank, Bool.or_eq_false_iff, Bool.and_eq_false_iff, decide_eq_false_iff_not,
        beq_eq_false_iff_ne] at hblank
      omega
    rcases hletter with hletter | hletter | rfl | rfl
    · omega
    · omega
    · exact absurd hcode (by decide)
    · exact absurd hcode (by decide)
  exact continuesBare_iff.mpr ⟨hplus, hblank⟩

theorem BareText.exists_cons (h : BareText text) :
    ∃ c cs, text = c :: cs ∧ startsName c = true := by
  rcases h.head with ⟨c, hc, hname⟩
  obtain ⟨cs, rfl⟩ := List.head?_eq_some_iff.mp hc
  exact ⟨c, cs, rfl, hname⟩

theorem BareText.append_conversion (h : BareText text) : BareText (text ++ conversion) := by
  constructor
  · rcases h.head with ⟨c, hc, hname⟩
    exact ⟨c, by rw [List.head?_append, hc]; rfl, hname⟩
  · intro c hc
    rcases List.mem_append.mp hc with hc | hc
    · exact h.continues c hc
    · exact List.all_eq_true.mp (by decide : conversion.all continuesBare = true) c hc

theorem BareText.of_append_conversion (h : BareText (text ++ conversion)) : BareText text := by
  constructor
  · rcases h.head with ⟨c, hc, hname⟩
    cases text with
    | nil =>
        obtain rfl : '.' = c := Option.some.inj hc
        exact absurd hname (by decide)
    | cons d text => exact ⟨c, hc, hname⟩
  · intro c hc
    exact h.continues c (List.mem_append_left _ hc)

theorem BareText.spelled (h : BareText text) :
    Spelled (.bare (dropEnding conversion text)) text := by
  by_cases hending : conversion <:+ text
  · obtain ⟨front, rfl⟩ := hending
    rw [dropEnding_append]
    exact .converted h.of_append_conversion
  · rw [dropEnding_eq_self hending]
    exact .bare h hending

theorem read_bareText (h : BareText text)
    (hrest : ∀ c, rest.head? = some c → continuesBare c = false) :
    read (text ++ rest) = .ok (.bare (dropEnding conversion text), rest) := by
  have hstop : rest.takeWhile continuesBare = [] ∧ rest.dropWhile continuesBare = rest := by
    cases rest with
    | nil => exact ⟨rfl, rfl⟩
    | cons c rest => simp [hrest c rfl]
  have htake : (text ++ rest).takeWhile continuesBare = text := by
    rw [List.takeWhile_append_of_pos h.continues, hstop.1, List.append_nil]
  have hdrop : (text ++ rest).dropWhile continuesBare = rest := by
    rw [List.dropWhile_append_of_pos h.continues, hstop.2]
  obtain ⟨c, cs, rfl, hname⟩ := h.exists_cons
  have hquote : c ≠ '"' := by
    rintro rfl
    exact absurd hname (by decide)
  have hopen : c ≠ '(' := by
    rintro rfl
    exact absurd hname (by decide)
  rw [List.cons_append] at htake hdrop ⊢
  rw [read, if_neg hquote, if_neg hopen, if_pos hname, htake, hdrop]

theorem read_append (h : Spelled operand text) (hends : Ends rest operand) :
    read (text ++ rest) = .ok (operand, rest) := by
  cases h with
  | @literal body quotable =>
      have hliteral : splitLiteral '"' '"' (body ++ '"' :: rest) = some (body, rest) :=
        splitLiteral_eq_some_iff.mpr quotable
      simp [read, hliteral]
  | group isGroup =>
      have hgroup : splitGroup (text ++ rest) = some (text, rest) :=
        splitGroup_eq_some_iff.mpr isGroup
      obtain ⟨inner, rfl⟩ := List.head?_eq_some_iff.mp isGroup.head
      rw [List.cons_append] at hgroup ⊢
      simp [read, hgroup]
  | bare bareText plain =>
      rw [read_bareText bareText hends, dropEnding_eq_self plain]
  | converted bareText =>
      rw [read_bareText bareText.append_conversion hends, dropEnding_append]

theorem exists_spelled_of_read (h : read source = .ok (operand, rest)) :
    ∃ text, Spelled operand text ∧ Ends rest operand ∧ source = text ++ rest := by
  cases source with
  | nil => simp [read] at h
  | cons c cs =>
      simp only [read] at h
      split at h
      · rename_i hquote
        subst hquote
        split at h
        · rename_i body after hliteral
          obtain ⟨rfl, rfl⟩ := Prod.mk.inj (Except.ok.inj h)
          refine ⟨_, .literal (quotable_of_splitLiteral hliteral), trivial, ?_⟩
          simp [append_of_splitLiteral hliteral]
        · simp at h
      · split at h
        · split at h
          · rename_i group after hgroup
            obtain ⟨rfl, rfl⟩ := Prod.mk.inj (Except.ok.inj h)
            exact ⟨_, .group (isGroup_of_splitGroup hgroup), trivial, append_of_splitGroup hgroup⟩
          · simp at h
        · split at h
          · rename_i hname
            obtain ⟨rfl, rfl⟩ := Prod.mk.inj (Except.ok.inj h)
            refine ⟨_, BareText.spelled ⟨⟨c, ?_, hname⟩, ?_⟩, ?_, ?_⟩
            · rw [List.takeWhile_cons_of_pos (continuesBare_of_startsName hname)]
              rfl
            · exact fun d hd => List.mem_takeWhile_imp hd
            · intro d hd
              have hstop := List.head?_dropWhile_not continuesBare (c :: cs)
              rw [hd] at hstop
              simpa using hstop
            · exact List.takeWhile_append_dropWhile.symm
          · simp at h

theorem exists_gap_append_skipSeparator (source : Text) :
    ∃ gap, IsGap gap ∧ source = gap ++ skipSeparator source := by
  obtain ⟨u, hu, hsource⟩ := exists_blank_append_trimStart source
  rw [skipSeparator]
  split
  · rename_i rest hplus
    obtain ⟨v, hv, hrest⟩ := exists_blank_append_trimStart rest
    refine ⟨u ++ '+' :: v, .inr ⟨u, v, hu, hv, rfl⟩, ?_⟩
    rw [List.append_assoc, List.cons_append, ← hrest, ← hplus, ← hsource]
  · exact ⟨u, .inl hu, hsource⟩

theorem skipSeparator_gap_append (hgap : IsGap gap)
    (hrest : ∀ c, rest.head? = some c → continuesBare c = true) :
    skipSeparator (gap ++ rest) = rest := by
  have htrim : trimStart rest = rest :=
    trimStart_eq_self fun c hc => (continuesBare_iff.mp (hrest c hc)).2
  rcases hgap with hblank | ⟨u, v, hu, hv, rfl⟩
  · rw [skipSeparator, trimStart_blank_append hblank, htrim]
    split
    · exact absurd (hrest '+' rfl) (by decide)
    · rfl
  · have hplus : trimStart (u ++ '+' :: v ++ rest) = '+' :: (v ++ rest) := by
      rw [List.append_assoc, trimStart_blank_append hu]
      exact trimStart_eq_self (by simp; decide)
    simp only [skipSeparator, hplus]
    rw [trimStart_blank_append hv, htrim]

theorem IsGap.head_stops (hgap : IsGap gap) {c : Char} (hc : gap.head? = some c) :
    continuesBare c = false := by
  rcases hgap with hblank | ⟨u, v, hu, -, rfl⟩
  · simp [continuesBare, hblank c (List.mem_of_head? hc)]
  · cases u with
    | nil =>
        obtain rfl : '+' = c := Option.some.inj hc
        rfl
    | cons d u =>
        obtain rfl : d = c := Option.some.inj hc
        simp [continuesBare, hu d List.mem_cons_self]

theorem IsGap.ends (hgap : IsGap gap) (operand : Operand) : Ends gap operand := by
  cases operand with
  | literal text => trivial
  | group text => trivial
  | bare text => exact fun c hc => hgap.head_stops hc

theorem Spelled.exists_cons (h : Spelled operand text) :
    ∃ c cs, text = c :: cs ∧ continuesBare c = true := by
  cases h with
  | literal => exact ⟨_, _, rfl, by decide⟩
  | group isGroup =>
      obtain ⟨cs, rfl⟩ := List.head?_eq_some_iff.mp isGroup.head
      exact ⟨_, cs, rfl, by decide⟩
  | bare bareText =>
      obtain ⟨c, cs, rfl, hname⟩ := bareText.exists_cons
      exact ⟨c, cs, rfl, continuesBare_of_startsName hname⟩
  | converted bareText =>
      obtain ⟨c, cs, rfl, hname⟩ := bareText.exists_cons
      exact ⟨c, _, rfl, continuesBare_of_startsName hname⟩

/-- The text of operands as the reader takes it: each of them is spelled and has a gap behind it. -/
inductive Chained : List Operand → Text → Prop where
  | last {operand : Operand} {text gap : Text} (spelled : Spelled operand text)
      (isGap : IsGap gap) : Chained [operand] (text ++ gap)
  | cons {operand : Operand} {operands : List Operand} {text gap rest : Text}
      (spelled : Spelled operand text) (isGap : IsGap gap) (ends : Ends (gap ++ rest) operand)
      (chained : Chained operands rest) : Chained (operand :: operands) (text ++ (gap ++ rest))

theorem Chained.exists_cons (h : Chained operands text) :
    ∃ c cs, text = c :: cs ∧ continuesBare c = true := by
  cases h with
  | last spelled =>
      obtain ⟨c, cs, rfl, hcontinues⟩ := spelled.exists_cons
      exact ⟨c, _, rfl, hcontinues⟩
  | cons spelled =>
      obtain ⟨c, cs, rfl, hcontinues⟩ := spelled.exists_cons
      exact ⟨c, _, rfl, hcontinues⟩

theorem readAll_succ_of_read (budget left : Nat) (h : read source = .ok (operand, rest)) :
    readAll budget (left + 1) source =
      if (skipSeparator rest).isEmpty then .ok [operand]
      else (readAll budget left (skipSeparator rest)).map (operand :: ·) := by
  simp only [readAll, h, bind, Except.bind]
  split
  · rfl
  · cases readAll budget left (skipSeparator rest) with
    | error cause => rfl
    | ok others => rfl

theorem readAll_of_chained (budget : Nat) (h : Chained operands source)
    (hleft : operands.length ≤ left) : readAll budget left source = .ok operands := by
  induction h generalizing left with
  | @last operand text gap spelled isGap =>
      obtain ⟨n, rfl⟩ := Nat.exists_eq_add_of_le' hleft
      have hskip : skipSeparator gap = [] := by
        simpa using skipSeparator_gap_append isGap (by simp : ∀ c, [].head? = some c → _)
      have hread := read_append spelled (isGap.ends operand)
      rw [List.length_singleton, readAll_succ_of_read _ _ hread, hskip]
      rfl
  | @cons operand operands text gap rest spelled isGap ends chained ih =>
      obtain ⟨n, rfl⟩ := Nat.exists_eq_add_of_le' hleft
      obtain ⟨c, cs, rfl, hcontinues⟩ := chained.exists_cons
      have hskip : skipSeparator (gap ++ c :: cs) = c :: cs := by
        apply skipSeparator_gap_append isGap
        intro d hd
        obtain rfl : c = d := Option.some.inj hd
        exact hcontinues
      rw [List.length_cons, ← Nat.add_assoc, readAll_succ_of_read _ _ (read_append spelled ends),
        hskip, ih (Nat.le_add_left _ _)]
      rfl

theorem chained_of_readAll (h : readAll budget left source = .ok operands) :
    operands.length ≤ left ∧ Chained operands source := by
  induction left generalizing source operands with
  | zero => simp [readAll] at h
  | succ left ih =>
      cases hread : read source with
      | error cause => simp [readAll, hread, bind, Except.bind] at h
      | ok result =>
          obtain ⟨operand, rest⟩ := result
          obtain ⟨text, hspelled, hends, rfl⟩ := exists_spelled_of_read hread
          obtain ⟨gap, hgap, hrest⟩ := exists_gap_append_skipSeparator rest
          rw [readAll_succ_of_read _ _ hread] at h
          split at h
          · rename_i hempty
            obtain rfl := Except.ok.inj h
            rw [List.isEmpty_iff.mp hempty, List.append_nil] at hrest
            rw [hrest]
            exact ⟨Nat.le_add_left 1 left, .last hspelled hgap⟩
          · cases hothers : readAll budget left (skipSeparator rest) with
            | error cause => simp [hothers, Except.map] at h
            | ok others =>
                rw [hothers] at h
                obtain rfl := Except.ok.inj h
                obtain ⟨hlength, hchained⟩ := ih hothers
                rw [hrest] at hends ⊢
                exact ⟨Nat.succ_le_succ hlength, .cons hspelled hgap hends hchained⟩

/-- The reader accepts the texts of operands, of no more than its budget, and no others. -/
theorem parse_eq_ok_iff {expression : Text} :
    parse budget expression = .ok operands ↔
      operands.length ≤ budget ∧ Chained operands expression.trim := by
  constructor
  · exact chained_of_readAll
  · rintro ⟨hlength, hchained⟩
    exact readAll_of_chained budget hchained hlength

theorem Chained.exists_spelled_of_mem (h : Chained operands source) (hmem : operand ∈ operands) :
    ∃ part, Spelled operand part ∧ part <:+: source := by
  induction h with
  | @last first text gap spelled isGap =>
      obtain rfl := List.mem_singleton.mp hmem
      exact ⟨text, spelled, (List.prefix_append text gap).isInfix⟩
  | @cons first operands text gap rest spelled isGap ends chained ih =>
      rcases List.mem_cons.mp hmem with rfl | hmem
      · exact ⟨text, spelled, (List.prefix_append text _).isInfix⟩
      · rcases ih hmem with ⟨part, hpart, hinfix⟩
        have hrest : rest <:+ text ++ (gap ++ rest) := ⟨text ++ gap, by simp⟩
        exact ⟨part, hpart, hinfix.trans hrest.isInfix⟩

theorem exists_spelled_of_mem_parse (h : parse budget source = .ok operands)
    (hmem : operand ∈ operands) : ∃ part, Spelled operand part ∧ part <:+: source := by
  have htrim := trim_infix source
  rcases (parse_eq_ok_iff.mp h).2.exists_spelled_of_mem hmem with ⟨part, hpart, hinfix⟩
  exact ⟨part, hpart, hinfix.trans htrim⟩

theorem Spelled.text_infix (h : Spelled operand source) : operand.text <:+: source := by
  cases h with
  | @literal body quotable => exact ⟨['"'], ['"'], by simp [Operand.text]⟩
  | group isGroup => exact List.infix_rfl
  | bare bareText plain => exact List.infix_rfl
  | converted bareText => exact (List.prefix_append _ conversion).isInfix

theorem text_infix_of_mem_parse (h : parse budget source = .ok operands)
    (hmem : operand ∈ operands) : operand.text <:+: source := by
  rcases exists_spelled_of_mem_parse h hmem with ⟨part, hpart, hinfix⟩
  exact hpart.text_infix.trans hinfix

theorem quotable_of_literal_mem_parse {body : Text} (h : parse budget source = .ok operands)
    (hmem : .literal body ∈ operands) : Quotable '"' body := by
  rcases exists_spelled_of_mem_parse h hmem with ⟨part, hpart, -⟩
  cases hpart with
  | literal quotable => exact quotable

theorem Spelled.exists_literal {cs : Text} (h : Spelled operand text)
    (hsource : text ++ rest = '"' :: cs) :
    ∃ body, operand = .literal body ∧ splitLiteral '"' '"' cs = some (body, rest) := by
  have hname : startsName '"' ≠ true := by decide
  cases h with
  | @literal body quotable =>
      obtain rfl : body ++ '"' :: rest = cs := by simpa using hsource
      exact ⟨body, rfl, splitLiteral_eq_some_iff.mpr quotable⟩
  | group isGroup =>
      obtain ⟨inner, rfl⟩ := List.head?_eq_some_iff.mp isGroup.head
      exact absurd (List.cons.inj hsource).1 (by decide)
  | bare bareText =>
      obtain ⟨c, tail, rfl, hc⟩ := bareText.exists_cons
      exact absurd ((List.cons.inj hsource).1 ▸ hc) hname
  | converted bareText =>
      obtain ⟨c, tail, rfl, hc⟩ := bareText.exists_cons
      exact absurd ((List.cons.inj hsource).1 ▸ hc) hname

theorem Chained.exists_literal {cs : Text} (h : Chained operands source)
    (hsource : source = '"' :: cs) :
    ∃ body rest others, operands = .literal body :: others ∧
      splitLiteral '"' '"' cs = some (body, rest) := by
  cases h with
  | last spelled =>
      rcases spelled.exists_literal hsource with ⟨body, rfl, hliteral⟩
      exact ⟨body, _, _, rfl, hliteral⟩
  | cons spelled =>
      rcases spelled.exists_literal hsource with ⟨body, rfl, hliteral⟩
      exact ⟨body, _, _, rfl, hliteral⟩

end Operand

end LogTemplate
