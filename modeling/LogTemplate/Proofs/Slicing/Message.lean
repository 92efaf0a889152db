import LogTemplate.Message.Template
import LogTemplate.Proofs.Message.Budget
import LogTemplate.Proofs.Slicing.Call

namespace LogTemplate.Sliced

open Delimiter Operand

/-- The operand at the front of a text, and the number of bytes that it takes up. -/
def read : Text → Except BadSlice (Except OperandError (Operand × Nat))
  | [] => .ok (.error (.invalid []))
  | c :: cs =>
      if c = '"' then
        match endOfQuoted (c :: cs) 1 with
        | none => .ok (.error (.unclosed (c :: cs)))
        | some closing => do
            let body ← slice (c :: cs) 1 closing
            return .ok (.literal body, closing + 1)
      else if c = '(' then
        match endOfGroup (c :: cs) with
        | none => .ok (.error (.unbalanced (c :: cs)))
        | some closing => do
            let group ← slice (c :: cs) 0 (closing + 1)
            return .ok (.group group, closing + 1)
      else if startsName c then do
        let stop := (find? (fun d => !continuesBare d) (c :: cs)).getD (Text.byteSize (c :: cs))
        let expression ← slice (c :: cs) 0 stop
        return .ok (.bare (Text.dropEnding conversion expression), stop)
      else .ok (.error (.invalid (c :: cs)))

def readAll (budget : Nat) : Nat → Text → Except BadSlice (Except OperandError (List Operand))
  | 0, text => .ok (.error (.exhausted budget text))
  | left + 1, text => do
      match ← read text with
      | .error cause => return .error cause
      | .ok (operand, consumed) =>
          let rest := skipSeparator (← sliceFrom text consumed)
          if rest.isEmpty then return .ok [operand]
          else return (← readAll budget left rest).map (operand :: ·)

def ofExpression (budget : Nat) (expression : Text) :
    Except BadSlice (Except OperandError Template) := do
  let operands ← readAll budget budget expression.trim
  return operands.map Template.ofOperands

theorem find?_eq_takeWhile (test : Char → Bool) (text : Text) :
    (find? (fun c => !test c) text).getD text.byteSize = Text.byteSize (text.takeWhile test) := by
  induction text with
  | nil => rfl
  | cons c text ih =>
      cases hc : test c with
      | false => simp [find?, hc]
      | true =>
          rw [find?, if_neg (by simp [hc]), List.takeWhile_cons_of_pos hc, Text.byteSize_cons,
            Text.byteSize_cons, ← ih]
          cases find? (fun c => !test c) text with
          | none => rfl
          | some i => rfl

theorem endOfQuoted_one (cs : Text) :
    endOfQuoted ('"' :: cs) 1 =
      (splitLiteral '"' '"' cs).map fun parts => 1 + Text.byteSize parts.1 := by
  have hsplit : Text.splitFrom 1 ('"' :: cs) = (['"'], cs) :=
    Text.splitFrom_byteSize_append ['"'] cs
  simp only [endOfQuoted, hsplit]
  rfl

theorem read_quote (cs : Text) :
    read ('"' :: cs) = .ok ((Operand.read ('"' :: cs)).map fun (operand, rest) =>
      (operand, Text.byteSize ('"' :: cs) - Text.byteSize rest)) := by
  rw [read, if_pos rfl, endOfQuoted_one, Operand.read, if_pos rfl]
  cases hliteral : splitLiteral '"' '"' cs with
  | none => rfl
  | some parts =>
      obtain ⟨body, rest⟩ := parts
      have htext : '"' :: cs = ['"'] ++ (body ++ '"' :: rest) := by
        rw [append_of_splitLiteral hliteral, List.singleton_append]
      have hbody : slice ('"' :: cs) 1 (1 + Text.byteSize body) = .ok body :=
        slice_eq_ok htext rfl rfl
      have hsize : Text.byteSize ('"' :: cs) - Text.byteSize rest = 1 + Text.byteSize body + 1 := by
        rw [byteSize_sub (u := '"' :: (body ++ ['"'])) (by simp [htext]), Text.byteSize_cons,
          Text.byteSize_append, ← Nat.add_assoc]
        rfl
      simp only [Option.map_some, hbody, Except.map, hsize]
      rfl

theorem read_paren (cs : Text) :
    read ('(' :: cs) = .ok ((Operand.read ('(' :: cs)).map fun (operand, rest) =>
      (operand, Text.byteSize ('(' :: cs) - Text.byteSize rest)) := by
  rw [read, if_neg (by decide), if_pos rfl, endOfGroup, Operand.read, if_neg (by decide),
    if_pos rfl]
  cases hgroup : splitGroup ('(' :: cs) with
  | none => rfl
  | some parts =>
      obtain ⟨group, rest⟩ := parts
      obtain ⟨inner, hinner, -⟩ := exists_append_of_splitGroup hgroup
      have hclosing : Text.byteSize group - 1 + 1 = Text.byteSize group := by
        rw [hinner, Text.byteSize_append]
        rfl
      have hslice : slice ('(' :: cs) 0 (Text.byteSize group) = .ok group :=
        slice_front (append_of_splitGroup hgroup)
      have hsize : Text.byteSize ('(' :: cs) - Text.byteSize rest = Text.byteSize group :=
        byteSize_sub (append_of_splitGroup hgroup)
      simp only [Option.map_some, hclosing, hslice, Except.map, hsize]
      rfl

theorem read_eq_ok (text : Text) :
    read text = .ok ((Operand.read text).map fun (operand, rest) =>
      (operand, text.byteSize - Text.byteSize rest)) := by
  cases text with
  | nil => rfl
  | cons c cs =>
      by_cases hquote : c = '"'
      · rw [hquote]
        exact read_quote cs
      · by_cases hparen : c = '('
        · rw [hparen]
          exact read_paren cs
        · rw [read, if_neg hquote, if_neg hparen, Operand.read, if_neg hquote, if_neg hparen]
          split
          · have htext := (List.takeWhile_append_dropWhile (p := continuesBare) (l := c :: cs)).symm
            simp only [find?_eq_takeWhile, slice_front htext, Except.map, byteSize_sub htext]
            rfl
          · rfl

theorem readAll_eq_ok (budget left : Nat) (text : Text) :
    readAll budget left text = .ok (Operand.readAll budget left text) := by
  induction left generalizing text with
  | zero => rfl
  | succ left ih =>
      rw [readAll, read_eq_ok]
      cases hread : Operand.read text with
      | error cause =>
          rw [readAll_succ_of_error budget left hread]
          rfl
      | ok parts =>
          obtain ⟨operand, rest⟩ := parts
          obtain ⟨front, -, -, htext⟩ := exists_spelled_of_read hread
          have hrest : sliceFrom text front.byteSize = .ok rest := sliceFrom_eq_ok htext rfl
          rw [readAll_succ_of_read budget left hread]
          simp only [Except.map, bind, Except.bind, byteSize_sub htext, hrest, ih]
          split
          · rfl
          · rfl

theorem ofExpression_eq_ok (budget : Nat) (expression : Text) :
    ofExpression budget expression = .ok (Template.ofExpression budget expression) := by
  rw [ofExpression, readAll_eq_ok]
  rfl

end LogTemplate.Sliced
