import LogTemplate.Proofs.Message.Numbering
import LogTemplate.Proofs.Message.Operand

namespace LogTemplate.Template

variable {values : List Text} {assigned : List (Operand × Text)}

def number (found : Text) : Nat :=
  Nat.ofDigitChars 10 found.tail.dropLast 0

theorem number_placeholder (n : Nat) : number (placeholder n) = n := by
  rw [number, placeholder, List.tail_cons, List.dropLast_concat]
  exact Nat.ofDigitChars_toDigits (by decide) (by decide)

theorem length_drop_lt_of_placeholderAt {text found : Text} (h : placeholderAt text = some found) :
    (text.drop found.length).length < text.length := by
  obtain ⟨digits, rest, -, -, rfl, rfl⟩ := placeholderAt_eq_some_iff.mp h
  rw [List.drop_left, List.length_append]
  exact Nat.lt_add_of_pos_left (Nat.succ_pos _)

/-- The text with the value of its number in the place of each placeholder. It does not exist when a
placeholder has no value. What was put in is not read again. -/
def fill (values : List Text) : Text → Option Text
  | [] => some []
  | c :: cs =>
      match h : placeholderAt (c :: cs) with
      | none => (fill values cs).map (c :: ·)
      | some found =>
          have : ((c :: cs).drop found.length).length < (c :: cs).length :=
            length_drop_lt_of_placeholderAt h
          values[number found]?.bind fun value =>
            (fill values ((c :: cs).drop found.length)).map (value ++ ·)
termination_by text => text.length
decreasing_by
  · exact Nat.lt_succ_self _
  · exact this

theorem fill_append_of_not_mem {u : Text} (values : List Text) (v : Text) (hu : '{' ∉ u) :
    fill values (u ++ v) = (fill values v).map (u ++ ·) := by
  induction u with
  | nil => simp
  | cons c u ih =>
      have hc : (c :: (u ++ v)).head? ≠ some '{' := by
        intro hc
        exact hu (by simp [Option.some.inj hc])
      rw [List.cons_append, fill]
      split
      · rw [ih fun hmem => hu (List.mem_cons_of_mem c hmem)]
        simp [Function.comp_def]
      · rename_i found hfound
        rw [placeholderAt_of_head?_ne hc] at hfound
        cases hfound

theorem fill_placeholder_append (n : Nat) (v : Text) :
    fill values (placeholder n ++ v) =
      values[n]?.bind fun value => (fill values v).map (value ++ ·) := by
  have hfront := placeholderAt_placeholder_append n v
  have hdrop : (placeholder n ++ v).drop (placeholder n).length = v := List.drop_left
  have hcons : placeholder n ++ v = '{' :: (Text.ofNat n ++ ['}'] ++ v) := rfl
  rw [hcons] at hfront hdrop ⊢
  rw [fill]
  split
  · rename_i hnone
    rw [hfront] at hnone
    cases hnone
  · rename_i found hfound
    obtain rfl : placeholder n = found := Option.some.inj (hfront.symm.trans hfound)
    simp only [hdrop, number_placeholder]

/-- The operands that are no literals, with their values. -/
def arguments (assigned : List (Operand × Text)) : List (Operand × Text) :=
  assigned.filter fun (operand, _) => operand.param?.isSome

/-- What a concatenation comes to when its operands have values. A literal stands for itself. -/
def message (assigned : List (Operand × Text)) : Text :=
  assigned.flatMap fun
    | (.literal text, _) => text
    | (.group _, value) => value
    | (.bare _, value) => value

theorem params_eq_arguments (assigned : List (Operand × Text)) :
    (ofOperands (assigned.map Prod.fst)).params =
      (arguments assigned).map fun (operand, _) => operand.text := by
  induction assigned with
  | nil => rfl
  | cons entry assigned ih =>
      rcases entry with ⟨operand, value⟩
      cases operand with
      | literal text => exact ih
      | group text => exact congrArg (text :: ·) ih
      | bare text => exact congrArg (text :: ·) ih

theorem placeholders_ofOperands {operands : List Operand}
    (hbrace : ∀ text, .literal text ∈ operands → '{' ∉ text) :
    placeholders (ofOperands operands).text =
      (List.range (ofOperands operands).params.length).map placeholder := by
  rw [placeholders_ofOperands_iff]
  intro run hrun
  have hrun : '{' ∉ run.flatten := by
    intro hmem
    rcases List.mem_flatten.mp hmem with ⟨text, htext, hbrace'⟩
    exact hbrace text (literal_mem_of_mem_literalRuns hrun htext) hbrace'
  simpa using placeholders_append_of_not_mem [] hrun

theorem fill_bodyFrom (before : List Text)
    (hbrace : ∀ text, .literal text ∈ assigned.map Prod.fst → '{' ∉ text) :
    fill (before ++ (arguments assigned).map Prod.snd)
        (bodyFrom before.length (assigned.map Prod.fst)) = some (message assigned) := by
  induction assigned generalizing before with
  | nil => simp [bodyFrom, fill, message]
  | cons entry assigned ih =>
      have hrest := fun before => ih before fun text htext =>
        hbrace text (List.mem_cons_of_mem _ htext)
      have hparam : ∀ value, fill (before ++ value :: (arguments assigned).map Prod.snd)
          (placeholder before.length ++ bodyFrom (before.length + 1) (assigned.map Prod.fst)) =
            some (value ++ message assigned) := by
        intro value
        have hvalues := hrest (before ++ [value])
        rw [List.append_assoc, List.singleton_append, List.length_append,
          List.length_singleton] at hvalues
        rw [fill_placeholder_append, hvalues]
        simp
      rcases entry with ⟨operand, value⟩
      cases operand with
      | literal text =>
          have htext : '{' ∉ text := hbrace text List.mem_cons_self
          have hfill := fill_append_of_not_mem (before ++ (arguments assigned).map Prod.snd)
            (bodyFrom before.length (assigned.map Prod.fst)) htext
          rw [hrest before] at hfill
          exact hfill
      | group text => exact hparam value
      | bare text => exact hparam value

/-- A template that is filled with the values of its parameters comes to what the message comes to.
The placeholders in it are those of the parameters, which are the operands that are no literals. -/
theorem fill_ofOperands (assigned : List (Operand × Text))
    (hbrace : ∀ text, .literal text ∈ assigned.map Prod.fst → '{' ∉ text) :
    let template := ofOperands (assigned.map Prod.fst)
    template.params = (arguments assigned).map (fun (operand, _) => operand.text) ∧
      placeholders template.text = (List.range template.params.length).map placeholder ∧
      ∃ body, template.text = '"' :: (body ++ ['"']) ∧
        fill ((arguments assigned).map Prod.snd) body = some (message assigned) := by
  intro template
  refine ⟨params_eq_arguments assigned, placeholders_ofOperands hbrace, ?_⟩
  exact ⟨bodyFrom 0 (assigned.map Prod.fst), rfl, fill_bodyFrom [] hbrace⟩

/-- Eleven parameters, and literals that could be taken for parts of placeholders. -/
def manyArguments : List (Operand × Text) :=
  (List.range 11).map (fun n => (.bare ('x' :: Text.ofNat n), Text.ofNat (n * n))) ++
    [(.literal "1\x7d".toList, []), (.group "(y)".toList, "\x7b0\x7d".toList)]

theorem fill_manyArguments :
    placeholders (ofOperands (manyArguments.map Prod.fst)).text = (List.range 12).map placeholder ∧
      ∃ body, (ofOperands (manyArguments.map Prod.fst)).text = '"' :: (body ++ ['"']) ∧
        fill ((arguments manyArguments).map Prod.snd) body =
          some "01491625364964811001\x7d\x7b0\x7d".toList := by
  have hplain : ∀ operand ∈ manyArguments.map Prod.fst, operand.param? = none →
      '{' ∉ operand.text := by
    decide +kernel
  obtain ⟨-, hplaceholders, body, htext, hfill⟩ :=
    fill_ofOperands manyArguments fun text hmem => hplain _ hmem rfl
  have hmessage : message manyArguments = "01491625364964811001\x7d\x7b0\x7d".toList := by
    decide +kernel
  rw [hmessage] at hfill
  exact ⟨hplaceholders, body, htext, hfill⟩

end LogTemplate.Template
