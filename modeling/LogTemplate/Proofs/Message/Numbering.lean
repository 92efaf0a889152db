import LogTemplate.Proofs.Message.Placeholder

namespace LogTemplate.Template

/-- The literals before the first parameter, between any two, and behind the last one. -/
def literalRuns : List Operand → List (List Text)
  | [] => [[]]
  | .literal text :: operands => (literalRuns operands).modifyHead (text :: ·)
  | .group _ :: operands => [] :: literalRuns operands
  | .bare _ :: operands => [] :: literalRuns operands

theorem exists_literal_of_param? {operand : Operand} (h : operand.param? = none) :
    ∃ text, operand = .literal text := by
  cases operand with
  | literal text => exact ⟨text, rfl⟩
  | group text => simp [Operand.param?] at h
  | bare text => simp [Operand.param?] at h

section Param

variable {operand : Operand} {param : Text} (hparam : operand.param? = some param)

include hparam

theorem bodyFrom_of_param? (n : Nat) (operands : List Operand) :
    bodyFrom n (operand :: operands) = placeholder n ++ bodyFrom (n + 1) operands := by
  cases operand with
  | literal text => simp [Operand.param?] at hparam
  | group text => rfl
  | bare text => rfl

theorem literalRuns_of_param? (operands : List Operand) :
    literalRuns (operand :: operands) = [] :: literalRuns operands := by
  cases operand with
  | literal text => simp [Operand.param?] at hparam
  | group text => rfl
  | bare text => rfl

end Param

theorem exists_literalRuns_eq_cons (operands : List Operand) :
    ∃ run runs, literalRuns operands = run :: runs := by
  induction operands with
  | nil => exact ⟨[], [], rfl⟩
  | cons operand operands ih =>
      cases hparam : operand.param? with
      | none =>
          obtain ⟨text, rfl⟩ := exists_literal_of_param? hparam
          obtain ⟨run, runs, hruns⟩ := ih
          exact ⟨text :: run, runs, by simp [literalRuns, hruns]⟩
      | some param => exact ⟨[], literalRuns operands, literalRuns_of_param? hparam operands⟩

theorem literal_mem_of_mem_literalRuns {operands : List Operand} {run : List Text} {text : Text}
    (hrun : run ∈ literalRuns operands) (htext : text ∈ run) : .literal text ∈ operands := by
  induction operands generalizing run with
  | nil =>
      obtain rfl := List.mem_singleton.mp hrun
      simp at htext
  | cons operand operands ih =>
      cases hparam : operand.param? with
      | none =>
          obtain ⟨other, rfl⟩ := exists_literal_of_param? hparam
          obtain ⟨first, runs, hruns⟩ := exists_literalRuns_eq_cons operands
          rw [literalRuns, hruns, List.modifyHead_cons] at hrun
          rcases List.mem_cons.mp hrun with rfl | hrun
          · rcases List.mem_cons.mp htext with rfl | htext
            · exact List.mem_cons_self
            · exact List.mem_cons_of_mem _ (ih (by simp [hruns]) htext)
          · exact List.mem_cons_of_mem _ (ih (by simp [hruns, hrun]) htext)
      | some param =>
          rw [literalRuns_of_param? hparam] at hrun
          rcases List.mem_cons.mp hrun with rfl | hrun
          · simp at htext
          · exact List.mem_cons_of_mem _ (ih hrun htext)

theorem placeholders_append_placeholder (u : Text) (n : Nat) (v : Text) :
    placeholders (u ++ (placeholder n ++ v)) =
      placeholders u ++ placeholder n :: placeholders v := by
  rw [placeholders_append, placeholders_placeholder_append]
  intro c hc
  obtain rfl : '{' = c := by simpa [placeholder] using hc
  decide

theorem length_params_le (u : Text) (n : Nat) (operands : List Operand) :
    (operands.filterMap Operand.param?).length ≤
      (placeholders (u ++ bodyFrom n operands)).length := by
  induction operands generalizing u n with
  | nil => simp
  | cons operand operands ih =>
      cases hparam : operand.param? with
      | none =>
          obtain ⟨text, rfl⟩ := exists_literal_of_param? hparam
          rw [bodyFrom, ← List.append_assoc, List.filterMap_cons_none hparam]
          exact ih (u ++ text) n
      | some param =>
          have hrest := ih [] (n + 1)
          rw [bodyFrom_of_param? hparam, placeholders_append_placeholder,
            List.filterMap_cons_some hparam, List.length_append, List.length_cons, List.length_cons]
          rw [List.nil_append] at hrest
          omega

theorem append_cons_eq_cons_iff {found further expected : List Text} {number : Text}
    (h : expected.length ≤ further.length) :
    found ++ number :: further = number :: expected ↔ found = [] ∧ further = expected := by
  constructor
  · intro heq
    have hlength := congrArg List.length heq
    simp only [List.length_append, List.length_cons] at hlength
    have hnil : found = [] := by
      rw [← List.length_eq_zero_iff]
      omega
    subst hnil
    exact ⟨rfl, (List.cons.inj heq).2⟩
  · rintro ⟨rfl, rfl⟩
    rfl

/-- The placeholders of a body are those of its parameters exactly when no run of literals holds
one. The text `u` stands for the literals read so far. -/
theorem placeholders_bodyFrom_iff (u : Text) (n : Nat) (operands : List Operand) :
    placeholders (u ++ bodyFrom n operands) =
        (List.range' n (operands.filterMap Operand.param?).length).map placeholder ↔
      ∀ text ∈ ((literalRuns operands).map List.flatten).modifyHead (u ++ ·),
        placeholders text = [] := by
  induction operands generalizing u n with
  | nil => simp [bodyFrom, literalRuns]
  | cons operand operands ih =>
      obtain ⟨run, runs, hruns⟩ := exists_literalRuns_eq_cons operands
      cases hparam : operand.param? with
      | none =>
          obtain ⟨text, rfl⟩ := exists_literal_of_param? hparam
          rw [bodyFrom, ← List.append_assoc, List.filterMap_cons_none hparam]
          simpa [literalRuns, hruns] using ih (u ++ text) n
      | some param =>
          have hrest := ih [] (n + 1)
          have hlength := length_params_le [] (n + 1) operands
          rw [List.nil_append] at hrest hlength
          rw [bodyFrom_of_param? hparam, placeholders_append_placeholder,
            List.filterMap_cons_some hparam, List.length_cons, List.range'_succ, List.map_cons,
            append_cons_eq_cons_iff (by simpa using hlength), hrest, literalRuns_of_param? hparam]
          simp [hruns]

theorem placeholders_ofOperands_iff (operands : List Operand) :
    placeholders (ofOperands operands).text =
        (List.range (ofOperands operands).params.length).map placeholder ↔
      ∀ run ∈ literalRuns operands, placeholders run.flatten = [] := by
  have hquote : placeholders (ofOperands operands).text = placeholders (bodyFrom 0 operands) := by
    have hopen : (ofOperands operands).text = ['"'] ++ (bodyFrom 0 operands ++ ['"']) := rfl
    have hclose : ∀ c, ['"'].head? = some c → isDecimalDigit c = false ∧ c ≠ '}' := by
      intro c hc
      obtain rfl : '"' = c := by simpa using hc
      decide
    rw [hopen, placeholders_append_of_not_mem _ (by simp), placeholders_append hclose]
    exact List.append_nil _
  have hbody := placeholders_bodyFrom_iff [] 0 operands
  obtain ⟨run, runs, hruns⟩ := exists_literalRuns_eq_cons operands
  rw [hquote, List.range_eq_range']
  simpa [hruns, ofOperands] using hbody

end LogTemplate.Template
