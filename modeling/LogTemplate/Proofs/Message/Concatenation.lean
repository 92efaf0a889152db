import LogTemplate.Proofs.Message.Operand

namespace LogTemplate.Operand

open Delimiter Text

variable {text : Text} {operand : Operand} {operands : List Operand} {budget : Nat}

/-- Operands written with a separator between every two of them. -/
inductive Joined : List Operand → Text → Prop where
  | single {operand : Operand} {text : Text} (spelled : Spelled operand text) :
      Joined [operand] text
  | cons {operand : Operand} {operands : List Operand} {text separator rest : Text}
      (spelled : Spelled operand text) (isSeparator : IsSeparator separator)
      (joined : Joined operands rest) : Joined (operand :: operands) (text ++ (separator ++ rest))

theorem IsSeparator.ends {separator : Text} (h : IsSeparator separator) (rest : Text)
    (operand : Operand) : Ends (separator ++ rest) operand := by
  have hgap : IsGap separator := .inr h
  have hne : separator ≠ [] := by
    rintro rfl
    rcases h with ⟨u, v, -, -, hnil⟩
    simp at hnil
  cases operand with
  | literal text => trivial
  | group text => trivial
  | bare text =>
      intro c hc
      rw [List.head?_append_of_ne_nil _ hne] at hc
      exact hgap.head_stops hc

theorem Joined.chained (h : Joined operands text) : Chained operands text := by
  induction h with
  | @single operand text spelled =>
      rw [← List.append_nil text]
      exact .last spelled (.inl (by decide))
  | cons spelled isSeparator joined ih =>
      exact .cons spelled (.inr isSeparator) (isSeparator.ends _ _) ih

theorem BareText.trimmed (h : BareText text) : Trimmed text :=
  trimmed_of_not_blank fun c hc => (continuesBare_iff.mp (h.continues c hc)).2

theorem Spelled.trimmed (h : Spelled operand text) : Trimmed text := by
  cases h with
  | literal quotable =>
      constructor
      · rintro c hc
        obtain rfl : '"' = c := Option.some.inj hc
        decide
      · rintro c hc
        obtain rfl : '"' = c := by simpa [List.getLast?_cons] using hc
        decide
  | group isGroup =>
      constructor
      · rintro c hc
        obtain rfl : '(' = c := Option.some.inj (isGroup.head.symm.trans hc)
        decide
      · rintro c hc
        obtain rfl : ')' = c := Option.some.inj (isGroup.getLast?_eq.symm.trans hc)
        decide
  | bare bareText => exact bareText.trimmed
  | converted bareText => exact bareText.append_conversion.trimmed

theorem Joined.ne_nil (h : Joined operands text) : text ≠ [] := by
  obtain ⟨c, cs, rfl, -⟩ := h.chained.exists_cons
  exact List.cons_ne_nil c cs

theorem Spelled.ne_nil (h : Spelled operand text) : text ≠ [] :=
  (Joined.single h).ne_nil

theorem Joined.trimmed (h : Joined operands text) : Trimmed text := by
  induction h with
  | single spelled => exact spelled.trimmed
  | cons spelled isSeparator joined ih =>
      constructor
      · intro c hc
        rw [List.head?_append_of_ne_nil _ spelled.ne_nil] at hc
        exact spelled.trimmed.head c hc
      · intro c hc
        rw [← List.append_assoc, List.getLast?_append_of_ne_nil _ joined.ne_nil] at hc
        exact ih.last c hc

/-- What is written as a concatenation is read back, whatever the blanks in it and around it. -/
theorem parse_of_joined {front back : Text} (hjoined : Joined operands text)
    (hfront : AllBlank front) (hback : AllBlank back) (hbudget : operands.length ≤ budget) :
    parse budget (front ++ (text ++ back)) = .ok operands := by
  rw [parse_eq_ok_iff, trim_eq_of_trimmed hfront hback hjoined.trimmed]
  exact ⟨hbudget, hjoined.chained⟩

def mixedOperands : List Operand :=
  [.literal "say \\\"x".toList, .group "(a + b)".toList, .bare "o.f()".toList]

theorem parse_mixedOperands :
    Joined mixedOperands "\"say \\\"x\"+(a + b) \t+ o.f().toString()".toList ∧
      parse 3 " \"say \\\"x\"+(a + b) \t+ o.f().toString()\n".toList = .ok mixedOperands := by
  have hbody : splitLiteral '"' '"' "say \\\"x\"".toList = some ("say \\\"x".toList, []) := by
    decide
  have hsum : splitGroup "(a + b)".toList = some ("(a + b)".toList, []) := by decide
  have hbare : BareText "o.f()".toList := ⟨⟨'o', rfl, rfl⟩, List.all_eq_true.mp (by decide)⟩
  have hjoined : Joined mixedOperands "\"say \\\"x\"+(a + b) \t+ o.f().toString()".toList := by
    apply Joined.cons (.literal (quotable_of_splitLiteral hbody))
      ⟨[], [], by decide, by decide, rfl⟩
    apply Joined.cons (.group (isGroup_of_splitGroup hsum))
      ⟨" \t".toList, " ".toList, by decide, by decide, rfl⟩
    exact .single (.converted hbare)
  refine ⟨hjoined, ?_⟩
  exact parse_of_joined hjoined (by decide : AllBlank " ".toList) (by decide : AllBlank "\n".toList)
    (by decide)

theorem Chained.exists_pieces (h : Chained operands text) :
    operands ≠ [] ∧ ∃ pieces : List (Text × Text),
      List.Forall₂ (fun operand piece => Spelled operand piece.1 ∧ IsGap piece.2) operands pieces ∧
        text = pieces.flatMap fun piece => piece.1 ++ piece.2 := by
  induction h with
  | @last operand text gap spelled isGap =>
      refine ⟨List.cons_ne_nil operand [], [(text, gap)], .cons ⟨spelled, isGap⟩ .nil, ?_⟩
      simp
  | @cons operand operands text gap rest spelled isGap ends chained ih =>
      rcases ih with ⟨-, pieces, hpieces, rfl⟩
      refine ⟨List.cons_ne_nil operand operands, (text, gap) :: pieces,
        .cons ⟨spelled, isGap⟩ hpieces, ?_⟩
      rw [List.flatMap_cons, List.append_assoc]

/-- Nothing of an expression is lost when it is read: its operands, as they are spelled, and the
gaps behind them make it up. -/
theorem exists_pieces_of_parse {expression : Text} (h : parse budget expression = .ok operands) :
    1 ≤ operands.length ∧ operands.length ≤ budget ∧
      ∃ pieces : List (Text × Text),
        List.Forall₂ (fun operand piece => Spelled operand piece.1 ∧ IsGap piece.2) operands
          pieces ∧
        expression.trim = pieces.flatMap fun piece => piece.1 ++ piece.2 := by
  obtain ⟨hbudget, hchained⟩ := parse_eq_ok_iff.mp h
  obtain ⟨hne, hpieces⟩ := hchained.exists_pieces
  exact ⟨List.length_pos_iff.mpr hne, hbudget, hpieces⟩

theorem exists_pieces_of_loose :
    parse 3 "\"a\"(c d)b.toString() +\n".toList =
        .ok [.literal ['a'], .group "(c d)".toList, .bare ['b']] ∧
      ∃ pieces : List (Text × Text),
        List.Forall₂ (fun operand piece => Spelled operand piece.1 ∧ IsGap piece.2)
          [.literal ['a'], .group "(c d)".toList, .bare ['b']] pieces ∧
        "\"a\"(c d)b.toString() +".toList = pieces.flatMap fun piece => piece.1 ++ piece.2 := by
  have hparse : parse 3 "\"a\"(c d)b.toString() +\n".toList =
      .ok [.literal ['a'], .group "(c d)".toList, .bare ['b']] := by
    decide +kernel
  exact ⟨hparse, (exists_pieces_of_parse hparse).2.2⟩

end LogTemplate.Operand
