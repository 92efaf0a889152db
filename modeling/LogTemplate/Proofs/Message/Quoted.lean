import LogTemplate.Message.Template
import LogTemplate.Proofs.Delimiter.Literal
import LogTemplate.Proofs.Message.Concatenation
import LogTemplate.Proofs.Message.Placeholder
import LogTemplate.Proofs.Text.Cut

namespace LogTemplate

open Delimiter

namespace Template

theorem quotable_placeholder (n : Nat) : Quotable '"' (placeholder n) := by
  have hplain : ∀ c ∈ placeholder n, isDecimalDigit c = true ∨ c = '{' ∨ c = '}' := by
    intro c hc
    simp only [placeholder, List.mem_cons, List.mem_append, List.not_mem_nil, or_false] at hc
    rcases hc with rfl | hc | rfl
    · exact .inr (.inl rfl)
    · exact .inl (isDecimalDigit_of_mem_ofNat hc)
    · exact .inr (.inr rfl)
  apply quotable_of_not_mem (by decide)
  · exact fun hmem => absurd (hplain _ hmem) (by decide)
  · exact fun hmem => absurd (hplain _ hmem) (by decide)

theorem quotable_bodyFrom {operands : List Operand} (n : Nat)
    (h : ∀ text, .literal text ∈ operands → Quotable '"' text) :
    Quotable '"' (bodyFrom n operands) := by
  induction operands generalizing n with
  | nil => exact (by decide : '"' ≠ '\\')
  | cons operand operands ih =>
      have hrest := fun k => ih k fun text htext => h text (List.mem_cons_of_mem _ htext)
      cases operand with
      | literal text => exact (h text List.mem_cons_self).append (hrest n)
      | group text => exact (quotable_placeholder n).append (hrest (n + 1))
      | bare text => exact (quotable_placeholder n).append (hrest (n + 1))

end Template

theorem Delimiter.endOfQuoted_quoted {body : Text} (h : Quotable '"' body) (rest : Text) :
    endOfQuoted ('"' :: (body ++ '"' :: rest)) 1 = some (1 + body.byteSize) := by
  have hsplit : Text.splitFrom 1 ('"' :: (body ++ '"' :: rest)) = (['"'], body ++ '"' :: rest) :=
    Text.splitFrom_byteSize_append ['"'] _
  have hliteral : splitLiteral '"' '"' (body ++ '"' :: rest) = some (body, rest) :=
    splitLiteral_eq_some_iff.mpr h
  simp only [endOfQuoted, hsplit, List.getLast?_singleton, Option.getD_some, hliteral,
    Option.map_some]
  rfl

theorem Operand.parse_quoted {body : Text} {budget : Nat} (h : Quotable '"' body)
    (hbudget : 1 ≤ budget) : parse budget ('"' :: (body ++ ['"'])) = .ok [.literal body] := by
  have hspelled : Spelled (.literal body) ('"' :: (body ++ ['"'])) := .literal h
  rw [parse_eq_ok_iff, Text.trim_eq_self hspelled.trimmed]
  exact ⟨hbudget, (Joined.single hspelled).chained⟩

namespace Template

theorem exists_quotable_of_ofExpression {budget : Nat} {expression : Text} {template : Template}
    (h : ofExpression budget expression = .ok template) :
    ∃ body, Quotable '"' body ∧ template.text = '"' :: (body ++ ['"']) := by
  rw [ofExpression] at h
  cases hparsed : Operand.parse budget expression with
  | error cause =>
      rw [hparsed] at h
      cases h
  | ok operands =>
      rw [hparsed] at h
      obtain rfl := Except.ok.inj h
      refine ⟨bodyFrom 0 operands, ?_, rfl⟩
      exact quotable_bodyFrom 0 fun text => Operand.quotable_of_literal_mem_parse hparsed

/-- A template is one literal: its first quote is closed by its last character and not before, and
the template of it is itself. -/
theorem ofExpression_text {budget : Nat} {expression : Text} {template : Template}
    (h : ofExpression budget expression = .ok template) :
    template.text.head? = some '"' ∧
      endOfQuoted template.text 1 = some (template.text.byteSize - 1) ∧
      ∀ other, 1 ≤ other →
        ofExpression other template.text = .ok { text := template.text, params := [] } := by
  obtain ⟨body, hbody, htext⟩ := exists_quotable_of_ofExpression h
  rw [htext]
  refine ⟨rfl, ?_, ?_⟩
  · have hquote : '"'.utf8Size = 1 := rfl
    rw [endOfQuoted_quoted hbody]
    simp only [Text.byteSize_cons, Text.byteSize_append, Text.byteSize_nil, hquote,
      Option.some.injEq]
    omega
  · intro other hother
    rw [ofExpression, Operand.parse_quoted hbody hother]
    simp [Except.map, ofOperands, bodyFrom, Operand.param?]

/-- Escaped quotes stand on both sides of a placeholder, and the second literal ends in one. -/
def quotedMessage : Text :=
  "\"say \\\"\" + word + \"\\\"\"+(x + \"\\\\\")".toList

def quotedTemplate : Template where
  text := "\"say \\\"\x7b0\x7d\\\"\x7b1\x7d\"".toList
  params := ["word".toList, "(x + \"\\\\\")".toList]

theorem ofExpression_text_quotedMessage :
    ofExpression 4 quotedMessage = .ok quotedTemplate ∧
      endOfQuoted quotedTemplate.text 1 = some 15 ∧
      ofExpression 1 quotedTemplate.text = .ok { text := quotedTemplate.text, params := [] } := by
  have h : ofExpression 4 quotedMessage = .ok quotedTemplate := by
    decide +kernel
  obtain ⟨-, hend, hagain⟩ := ofExpression_text h
  exact ⟨h, hend, hagain 1 (by decide)⟩

end Template

end LogTemplate
