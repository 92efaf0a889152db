import LogTemplate.Proofs.Proposal.Scan
import LogTemplate.Proofs.Proposal.Verdict
import LogTemplate.Proofs.Source.Above

namespace LogTemplate.Formatter

open Statement

variable {settings : Settings} {lines : List Text} {statement : Statement} {proposal : Proposal}
  {n : Nat}

theorem semicolon_mem_of_not_skipped (h : ¬Skipped settings lines statement) :
    ';' ∈ statement.code := by
  by_contra hnot
  refine h (skipped_iff.mpr fun layout hcode => ?_)
  rw [← hcode, Call.Layout.code] at hnot
  simp at hnot

theorem not_skipped_of_proposed (h : offer settings lines statement = .ok (.proposed proposal)) :
    ¬Skipped settings lines statement := by
  rintro ⟨reason, hreason⟩
  rw [h] at hreason
  cases hreason

theorem not_skipped_of_refused {refusal : Refusal}
    (h : offer settings lines statement = .error refusal) : ¬Skipped settings lines statement := by
  rintro ⟨reason, hreason⟩
  rw [h] at hreason
  cases hreason

theorem le_last (h : n < lines.length) : n ≤ (locate lines n).last := by
  obtain ⟨extent, hextent⟩ := exists_surrounds h
  rw [← hextent.statement_eq]
  exact hextent.le_last

theorem max_last (h : n < lines.length) :
    max (locate lines n).last n = (locate lines n).last :=
  max_eq_left (le_last h)

theorem exists_last (h : n < lines.length) (hcode : ';' ∈ (locate lines n).code) :
    ∃ line, lines[(locate lines n).last]? = some line ∧ ';' ∈ line := by
  obtain ⟨extent, hextent⟩ := exists_surrounds h
  rw [← hextent.statement_eq] at hcode ⊢
  exact ⟨extent.final, by rw [← hextent.lines_eq, extent.getElem?_last],
    extent.semicolon_mem_final hcode⟩

theorem above_last (h : n < lines.length) (hcode : ';' ∈ (locate lines n).code) :
    above lines ((locate lines n).last + 1) = [] := by
  obtain ⟨line, hline, hmem⟩ := exists_last h hcode
  exact above_succ_of_closes hline (closes_of_semicolon_mem hmem)

/-- Of the lines above `n`, the statement at each one that could start the statement around `n` has
been skipped. -/
def Tried (settings : Settings) (lines : List Text) (n : Nat) : Prop :=
  ∀ m < n, (∀ j line, m ≤ j → j < n → lines[j]? = some line → closes line = false) →
    Skipped settings lines (locate lines m)

theorem Tried.succ (h : Tried settings lines n)
    (hskipped : Skipped settings lines (locate lines n)) :
    Tried settings lines (n + 1) := by
  intro m hm hopen
  rcases Nat.lt_succ_iff_lt_or_eq.mp hm with hlt | rfl
  · exact h m hlt fun j line hj hjn => hopen j line hj (hjn.trans n.lt_succ_self)
  · exact hskipped

theorem tried_succ_of_semicolon {line : Text} (hline : lines[n]? = some line) (h : ';' ∈ line) :
    Tried settings lines (n + 1) := by
  intro m hm hopen
  have hclosed := hopen n line (Nat.lt_succ_iff.mp hm) n.lt_succ_self hline
  rw [closes_of_semicolon_mem h] at hclosed
  cases hclosed

theorem Tried.first_eq (h : Tried settings lines n) (hn : n < lines.length)
    (hreported : ¬Skipped settings lines (locate lines n)) : (locate lines n).first = n := by
  have hle := first_le hn
  by_contra hne
  have hlt : (locate lines n).first < n := lt_of_le_of_ne hle hne
  obtain ⟨extent, hextent⟩ := exists_surrounds hn
  have hskipped := h _ hlt fun j line hj hjn hline => by
    rw [← hextent.statement_eq] at hj
    exact hextent.open_above j line hj hjn hline
  rw [locate_first hn (List.ne_nil_of_mem (semicolon_mem_of_not_skipped hreported))] at hskipped
  exact hreported hskipped

theorem tried_past (hn : n < lines.length) (hreported : ¬Skipped settings lines (locate lines n)) :
    Tried settings lines (max (locate lines n).last n + 1) := by
  obtain ⟨line, hline, hmem⟩ := exists_last hn (semicolon_mem_of_not_skipped hreported)
  rw [max_last hn]
  exact tried_succ_of_semicolon hline hmem

theorem Tried.le_first (h : Tried settings lines n) :
    ∀ proposal ∈ (scanFrom settings lines n).proposals, n ≤ proposal.statement.first := by
  fun_induction scanFrom settings lines n with
  | case1 n hn statement past found hoffer report ih =>
      have hreported := not_skipped_of_proposed hoffer
      intro proposal hmem
      rcases List.mem_cons.mp hmem with rfl | hmem
      · rw [(nonempty_origin_of_offer hoffer).1]
        exact (h.first_eq hn hreported).ge
      · have hle := ih (tried_past hn hreported) proposal hmem
        omega
  | case2 n hn statement reason hoffer ih =>
      intro proposal hmem
      have hle := ih (h.succ ⟨reason, hoffer⟩) proposal hmem
      omega
  | case3 n hn statement past refusal hoffer report ih =>
      intro proposal hmem
      have hle := ih (tried_past hn (not_skipped_of_refused hoffer)) proposal hmem
      omega
  | case4 n hn => simp

theorem scanFrom_of_skipped (hn : n < lines.length)
    (h : Skipped settings lines (locate lines n)) :
    scanFrom settings lines n = scanFrom settings lines (n + 1) := by
  obtain ⟨reason, hreason⟩ := h
  rw [scanFrom, if_pos hn]
  simp only [hreason]

theorem proposals_scanFrom_of_refused {refusal : Refusal} (hn : n < lines.length)
    (h : offer settings lines (locate lines n) = .error refusal) :
    (scanFrom settings lines n).proposals =
      (scanFrom settings lines ((locate lines n).last + 1)).proposals := by
  rw [scanFrom, if_pos hn]
  simp only [h, max_last hn]

theorem proposals_scanFrom_of_le (h : lines.length ≤ n) :
    (scanFrom settings lines n).proposals = [] := by
  rw [scanFrom, if_neg (by omega)]

end LogTemplate.Formatter
