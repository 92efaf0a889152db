import LogTemplate.Proofs.Proposal.Agreement
import LogTemplate.Proofs.Source.Location

namespace LogTemplate

namespace Statement

variable {lines : List Text} {trigger n : Nat} {statement : Statement}

/-- The lines from one line up to another, the second not included, hold no brace. -/
def BraceFree (lines : List Text) (start stop : Nat) : Prop :=
  ∀ n line, start ≤ n → n < stop → lines[n]? = some line → '{' ∉ line ∧ '}' ∉ line

theorem IsAround.braceFree (h : IsAround lines trigger statement) :
    BraceFree lines statement.first trigger :=
  fun k line hle hlt hline => (h.open_above k line hle hlt hline).2

/-- Of all that a statement is, only its openness above the trigger depends on the trigger. -/
theorem IsAround.of_spans (h : IsAround lines trigger statement) (hcode : statement.code ≠ [])
    (hn : statement.Spans n) (hbrace : BraceFree lines statement.first n) :
    IsAround lines n statement where
  first_le := hn.1
  le_last := hn.2
  last_lt := h.last_lt
  code_eq := h.code_eq
  semicolon_not_mem := h.semicolon_not_mem
  open_above := by
    intro k line hle hlt hline
    have hsemicolon := h.semicolon_not_mem k line hle (Nat.lt_of_lt_of_le hlt hn.2) hline
    exact ⟨hsemicolon, hbrace k line hle hlt hline⟩
  blank_above := h.blank_above
  first_not_blank := h.first_not_blank
  ended := h.ended
  of_empty hempty := absurd hempty hcode

theorem locate_eq_locate_iff (h : trigger < lines.length)
    (hcode : (locate lines trigger).code ≠ []) (hn : (locate lines trigger).Spans n) :
    locate lines n = locate lines trigger ↔ BraceFree lines (locate lines trigger).first n := by
  have haround := isAround_locate h
  have hlt : n < lines.length := Nat.lt_of_le_of_lt hn.2 haround.last_lt
  constructor
  · intro heq
    rw [← heq]
    exact (isAround_locate hlt).braceFree
  · intro hbrace
    exact (isAround_locate hlt).unique (haround.of_spans hcode hn hbrace)

end Statement

namespace Formatter

open Statement

/-- A statement without a brace before its last line is found from each of its lines, the blank ones
among them, and the answer is the same at all of them. -/
theorem propose_eq_of_spans (settings : Settings) {lines : List Text} {trigger : Nat}
    (h : trigger < lines.length) (hcode : (locate lines trigger).code ≠ [])
    (hbrace : BraceFree lines (locate lines trigger).first (locate lines trigger).last) :
    ∀ n, (locate lines trigger).Spans n →
      locate lines n = locate lines trigger ∧
        propose settings lines n = propose settings lines trigger := by
  intro n hn
  have hlocate : locate lines n = locate lines trigger := by
    refine (locate_eq_locate_iff h hcode hn).mpr fun k line hle hlt hline => ?_
    exact hbrace k line hle (Nat.lt_of_lt_of_le hlt hn.2) hline
  have hlt : n < lines.length := Nat.lt_of_le_of_lt hn.2 (isAround_locate h).last_lt
  refine ⟨hlocate, ?_⟩
  rw [propose_eq_offer hlt, propose_eq_offer h, hlocate]

/-- A call with a blank line in it, and a brace in a literal of its last line. -/
def spreadLines : List Text :=
  ["class A \x7b java.util.logging.Logger log;".toList, " log.info(\"a\"".toList, [],
    "  + b".toList, "  + \"\x7d\");".toList]

def spreadProposal : Proposal where
  span := ⟨⟨1, 1⟩, ⟨4, 9⟩⟩
  replacement := "log.log(Level.INFO, \"a\x7b0\x7d\x7d\", b);".toList
  statement := ⟨"log.info(\"a\"+ b+ \"\x7d\");".toList, 1, 4⟩
  template := ⟨"\"a\x7b0\x7d\x7d\"".toList, ["b".toList]⟩

theorem propose_spreadLines :
    propose .default spreadLines 3 = .ok (.proposed spreadProposal) ∧
      ∀ n, 1 ≤ n ∧ n ≤ 4 → locate spreadLines n = spreadProposal.statement ∧
        propose .default spreadLines n = .ok (.proposed spreadProposal) := by
  have hpropose : propose .default spreadLines 3 = .ok (.proposed spreadProposal) := by
    decide +kernel
  have hlocate : locate spreadLines 3 = spreadProposal.statement := by decide
  have hbrace : BraceFree spreadLines (locate spreadLines 3).first (locate spreadLines 3).last := by
    rw [hlocate]
    rintro n line hle hlt hline
    have hn : n = 1 ∨ n = 2 ∨ n = 3 := by
      simp only [spreadProposal] at hle hlt
      omega
    rcases hn with rfl | rfl | rfl
    all_goals
      obtain rfl := Option.some.inj hline
      decide
  have hsame := propose_eq_of_spans .default (by decide) (by decide) hbrace
  rw [hlocate, hpropose] at hsame
  exact ⟨hpropose, hsame⟩

end Formatter

end LogTemplate
