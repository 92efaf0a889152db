import LogTemplate.Proofs.Message.Operand
import LogTemplate.Proofs.Text.Cut

/-!
The budget of the reader. Which text the reader comes to after a number of operands does not depend
on its budget, so a budget can only cut a reading short: it neither changes an answer that was found
within it, nor does it hide one from a larger budget.
-/

namespace LogTemplate

/-- The text that was not read. -/
def OperandError.rest : OperandError → Text
  | .invalid rest => rest
  | .unclosed rest => rest
  | .unbalanced rest => rest
  | .exhausted _ rest => rest

/-- The reader had to stop because of its budget. -/
def OperandError.isExhausted : OperandError → Bool
  | .exhausted _ _ => true
  | _ => false

namespace Operand

variable {source rest last : Text} {operand : Operand} {operands : List Operand}
  {cause : OperandError} {budget left n : Nat}

/-- The reader comes from one text to another after a number of operands, and text remains after
each of them. -/
inductive Reaches : Text → Nat → Text → Prop where
  | here (source : Text) : Reaches source 0 source
  | next {source rest last : Text} {operand : Operand} {n : Nat}
      (read_eq : read source = .ok (operand, rest)) (rest_ne : skipSeparator rest ≠ [])
      (reaches : Reaches (skipSeparator rest) n last) : Reaches source (n + 1) last

theorem readAll_succ_of_error (budget left : Nat) (h : read source = .error cause) :
    readAll budget (left + 1) source = .error cause := by
  simp only [readAll, h, bind, Except.bind]

theorem exists_reaches_of_readAll (h : readAll budget left source = .error cause) :
    ∃ n last, Reaches source n last ∧
      (n = left ∧ cause = .exhausted budget last ∨ n < left ∧ read last = .error cause) := by
  induction left generalizing source with
  | zero =>
      rw [readAll] at h
      exact ⟨0, source, .here source, .inl ⟨rfl, (Except.error.inj h).symm⟩⟩
  | succ left ih =>
      cases hread : read source with
      | error found =>
          rw [readAll_succ_of_error budget left hread] at h
          obtain rfl := Except.error.inj h
          exact ⟨0, source, .here source, .inr ⟨Nat.succ_pos left, hread⟩⟩
      | ok result =>
          -- One operand is read, so the reader stops one operand later than it does on the rest.
          obtain ⟨operand, rest⟩ := result
          rw [readAll_succ_of_read _ _ hread] at h
          split at h
          · cases h
          · rename_i hrest
            cases hothers : readAll budget left (skipSeparator rest) with
            | ok others =>
                rw [hothers] at h
                cases h
            | error found =>
                rw [hothers] at h
                obtain rfl := Except.error.inj h
                obtain ⟨n, last, hreaches, hstop⟩ := ih hothers
                refine ⟨n + 1, last, .next hread (by simpa using hrest) hreaches, ?_⟩
                rcases hstop with ⟨rfl, hcause⟩ | ⟨hlt, hcause⟩
                · exact .inl ⟨rfl, hcause⟩
                · exact .inr ⟨Nat.succ_lt_succ hlt, hcause⟩

theorem Reaches.readAll_add (h : Reaches source n last)
    (hlast : readAll budget left last = .error cause) :
    readAll budget (left + n) source = .error cause := by
  induction h with
  | here source => exact hlast
  | next read_eq rest_ne reaches ih =>
      rw [← Nat.add_assoc, readAll_succ_of_read _ _ read_eq, if_neg (by simpa using rest_ne),
        ih hlast]
      rfl

/-- A reading fails at the text that the budget leaves over, or before that at a text that starts
with no operand. -/
theorem readAll_eq_error_iff :
    readAll budget left source = .error cause ↔
      ∃ n last, Reaches source n last ∧
        (n = left ∧ cause = .exhausted budget last ∨ n < left ∧ read last = .error cause) := by
  refine ⟨exists_reaches_of_readAll, ?_⟩
  rintro ⟨n, last, hreaches, ⟨rfl, rfl⟩ | ⟨hlt, hread⟩⟩
  · rw [← Nat.zero_add n]
    exact hreaches.readAll_add rfl
  · obtain ⟨left, rfl⟩ := Nat.exists_eq_add_of_lt hlt
    have hstop := hreaches.readAll_add (readAll_succ_of_error budget left hread)
    rwa [Nat.add_comm, ← Nat.add_assoc] at hstop

theorem rest_of_read (h : read source = .error cause) :
    cause.rest = source ∧ cause.isExhausted = false := by
  cases source with
  | nil =>
      obtain rfl := Except.error.inj h
      exact ⟨rfl, rfl⟩
  | cons c cs =>
      simp only [read] at h
      split at h
      · split at h
        · cases h
        · obtain rfl := Except.error.inj h
          exact ⟨rfl, rfl⟩
      · split at h
        · split at h
          · cases h
          · obtain rfl := Except.error.inj h
            exact ⟨rfl, rfl⟩
        · split at h
          · cases h
          · obtain rfl := Except.error.inj h
            exact ⟨rfl, rfl⟩

theorem exists_cons_append_of_read (h : read source = .ok (operand, rest)) :
    ∃ c front, source = c :: (front ++ skipSeparator rest) := by
  obtain ⟨text, hspelled, -, rfl⟩ := exists_spelled_of_read h
  obtain ⟨c, cs, rfl, -⟩ := hspelled.exists_cons
  obtain ⟨gap, -, hgap⟩ := exists_gap_append_skipSeparator rest
  refine ⟨c, cs ++ gap, ?_⟩
  rw [List.append_assoc, ← hgap, List.cons_append]

theorem Reaches.suffix (h : Reaches source n last) : last <:+ source := by
  induction h with
  | here source => exact List.suffix_rfl
  | next read_eq rest_ne reaches ih =>
      obtain ⟨c, front, hsource⟩ := exists_cons_append_of_read read_eq
      rw [hsource, ← List.cons_append]
      exact ih.trans (List.suffix_append _ _)

theorem Reaches.add_length_le (h : Reaches source n last) : n + last.length ≤ source.length := by
  induction h with
  | here source => exact Nat.le_of_eq (Nat.zero_add _)
  | next read_eq rest_ne reaches ih =>
      obtain ⟨c, front, hsource⟩ := exists_cons_append_of_read read_eq
      rw [hsource, List.length_cons, List.length_append]
      omega

theorem Reaches.ne_nil (h : Reaches source n last) (hn : 0 < n) : last ≠ [] := by
  induction h with
  | here source => exact absurd hn (Nat.lt_irrefl 0)
  | @next source rest last operand n read_eq rest_ne reaches ih =>
      cases n with
      | zero =>
          cases reaches
          exact rest_ne
      | succ n => exact ih (Nat.succ_pos n)

section Parse

variable {expression : Text}

theorem parse_eq_error_iff :
    parse budget expression = .error cause ↔
      ∃ n last, Reaches expression.trim n last ∧
        (n = budget ∧ cause = .exhausted budget last ∨ n < budget ∧ read last = .error cause) :=
  readAll_eq_error_iff

theorem rest_suffix_of_parse (h : parse budget expression = .error cause) :
    cause.rest <:+ expression.trim := by
  obtain ⟨n, last, hreaches, ⟨-, rfl⟩ | ⟨-, hread⟩⟩ := parse_eq_error_iff.mp h
  · exact hreaches.suffix
  · rw [(rest_of_read hread).1]
    exact hreaches.suffix

theorem parse_of_le {larger : Nat} (hle : budget ≤ larger)
    (h : parse budget expression = .error cause) (hcause : cause.isExhausted = false) :
    parse larger expression = .error cause := by
  obtain ⟨n, last, hreaches, ⟨-, rfl⟩ | ⟨hlt, hread⟩⟩ := parse_eq_error_iff.mp h
  · cases hcause
  · exact parse_eq_error_iff.mpr ⟨n, last, hreaches, .inr ⟨Nat.lt_of_lt_of_le hlt hle, hread⟩⟩

theorem parse_of_length_le {larger : Nat} (h : parse budget expression = .ok operands)
    (hle : operands.length ≤ larger) : parse larger expression = .ok operands :=
  parse_eq_ok_iff.mpr ⟨hle, (parse_eq_ok_iff.mp h).2⟩

theorem exhausted_of_lt_length {smaller : Nat} (h : parse budget expression = .ok operands)
    (hlt : smaller < operands.length) :
    ∃ rest, parse smaller expression = .error (.exhausted smaller rest) := by
  have hbudget := (parse_eq_ok_iff.mp h).1
  cases hsmaller : parse smaller expression with
  | ok others =>
      have hlength := (parse_eq_ok_iff.mp hsmaller).1
      have hothers := parse_of_length_le hsmaller (hlength.trans (hlt.le.trans hbudget))
      obtain rfl : operands = others := Except.ok.inj (h.symm.trans hothers)
      exact absurd hlength (Nat.not_le.mpr hlt)
  | error cause =>
      obtain ⟨n, last, hreaches, ⟨rfl, rfl⟩ | ⟨-, hread⟩⟩ := parse_eq_error_iff.mp hsmaller
      · exact ⟨last, rfl⟩
      · have hlarger := parse_of_le (hlt.le.trans hbudget) hsmaller (rest_of_read hread).2
        rw [h] at hlarger
        cases hlarger

theorem isExhausted_of_byteSize_le (hpos : 1 ≤ budget) (hsize : expression.trim.byteSize ≤ budget)
    (h : parse budget expression = .error cause) : cause.isExhausted = false := by
  obtain ⟨n, last, hreaches, ⟨rfl, rfl⟩ | ⟨-, hread⟩⟩ := parse_eq_error_iff.mp h
  · have hlength := hreaches.add_length_le
    have hbytes := Text.length_le_byteSize expression.trim
    have hlast : last.length = 0 := by omega
    exact absurd (List.length_eq_zero_iff.mp hlast) (hreaches.ne_nil hpos)
  · exact (rest_of_read hread).2

/-- The budget is a cut-off and nothing else. Operands that are read with some budget are read with
every budget that they fit in, and a smaller one is exhausted. A text that cannot be read is refused
in the same way by every larger budget. A budget as large as the text is never exhausted. -/
theorem budget_cuts_off (expression : Text) :
    (∀ budget operands, parse budget expression = .ok operands →
      (∀ other, operands.length ≤ other → parse other expression = .ok operands) ∧
        ∀ other, other < operands.length →
          ∃ rest, parse other expression = .error (.exhausted other rest)) ∧
    (∀ budget cause, parse budget expression = .error cause →
      cause.rest <:+ expression.trim ∧
        (cause.isExhausted = false →
          ∀ other, budget ≤ other → parse other expression = .error cause) ∧
        (1 ≤ budget → expression.trim.byteSize ≤ budget → cause.isExhausted = false)) := by
  refine ⟨fun budget operands h => ⟨?_, ?_⟩, fun budget cause h => ⟨?_, ?_, ?_⟩⟩
  · exact fun other hle => parse_of_length_le h hle
  · exact fun other hlt => exhausted_of_lt_length h hlt
  · exact rest_suffix_of_parse h
  · exact fun hcause other hle => parse_of_le hle h hcause
  · exact fun hpos hsize => isExhausted_of_byteSize_le hpos hsize h

def threeOperands : Text :=
  " \"a\" + f(b).toString()+ (c d) ".toList

def openLiteral : Text :=
  "f(b) + \"a + c".toList

theorem budget_cuts_off_threeOperands :
    parse 5 threeOperands = .ok [.literal ['a'], .bare "f(b)".toList, .group "(c d)".toList] ∧
      parse 3 threeOperands = .ok [.literal ['a'], .bare "f(b)".toList, .group "(c d)".toList] ∧
      (∃ rest, parse 2 threeOperands = .error (.exhausted 2 rest)) ∧
      parse 2 openLiteral = .error (.unclosed "\"a + c".toList) ∧
      parse 7 openLiteral = .error (.unclosed "\"a + c".toList) ∧
      "\"a + c".toList <:+ openLiteral.trim := by
  have hread : parse 5 threeOperands =
      .ok [.literal ['a'], .bare "f(b)".toList, .group "(c d)".toList] := by
    decide +kernel
  have hopen : parse 2 openLiteral = .error (.unclosed "\"a + c".toList) := by
    decide +kernel
  obtain ⟨hlarger, hsmaller⟩ := (budget_cuts_off threeOperands).1 5 _ hread
  obtain ⟨hsuffix, hsame, -⟩ := (budget_cuts_off openLiteral).2 2 _ hopen
  exact ⟨hread, hlarger 3 (by decide), hsmaller 2 (by decide), hopen, hsame rfl 7 (by decide),
    hsuffix⟩

end Parse

end Operand

end LogTemplate
