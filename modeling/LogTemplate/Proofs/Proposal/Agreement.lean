import LogTemplate.Proofs.Proposal.Search
import Mathlib.Data.List.Pairwise

/-!
The sweep over a whole source against the answers at single lines. The sweep stops at the first
lines of the statements that it reports; what it reports at a stop is the answer at that line, and
every line with an answer other than a skip lies in a statement that is reported.
-/

namespace LogTemplate

/-- The line lies between the first and the last line of the statement. -/
def Statement.Spans (statement : Statement) (line : Nat) : Prop :=
  statement.first ≤ line ∧ line ≤ statement.last

/-- The two statements have no line in common. -/
def Statement.Apart (s t : Statement) : Prop :=
  ∀ line, ¬(s.Spans line ∧ t.Spans line)

theorem Statement.Apart.symm {s t : Statement} (h : s.Apart t) : t.Apart s :=
  fun line hboth => h line hboth.symm

/-- The line that a refusal names, counted from zero. -/
def Refusal.line : Refusal → Nat
  | .outOfRange line _ => line
  | .malformed lineNumber _ => lineNumber - 1
  | .unbounded lineNumber _ => lineNumber - 1

theorem Refusal.line_ofOperandError (statement : Statement) (cause : OperandError) :
    (ofOperandError statement cause).line = statement.first := by
  cases cause <;> rfl

/-- The statements that a report is about. A refusal is about the statement around its line. -/
def Report.statements (lines : List Text) (report : Report) : List Statement :=
  report.proposals.map Proposal.statement ++
    report.refusals.map fun refusal => Statement.locate lines refusal.line

namespace Formatter

open Statement

variable {settings : Settings} {lines : List Text} {statement : Statement} {n : Nat}

theorem propose_eq_offer (h : n < lines.length) :
    propose settings lines n = offer settings lines (locate lines n) := by
  rw [propose, if_pos h]

theorem statement_of_propose {proposal : Proposal}
    (h : propose settings lines n = .ok (.proposed proposal)) :
    proposal.statement = locate lines n :=
  (nonempty_origin_of_offer (offer_of_propose h).2).1

theorem line_of_offer {refusal : Refusal} (h : offer settings lines statement = .error refusal) :
    refusal.line = statement.first := by
  rw [offer] at h
  split at h
  next => cases h
  next =>
    split at h
    next => cases h
    next =>
      split at h
      next => cases h
      next =>
        split at h
        next => cases h
        next => cases h
        next =>
          split at h
          next => cases h
          next =>
            rw [offerCall] at h
            split at h
            next => cases h
            next => cases h
            next =>
              split at h
              next cause _ =>
                rw [← Except.error.inj h]
                exact Refusal.line_ofOperandError statement cause
              next => cases h

/-- The proposal in an answer. -/
def proposed? : Except Refusal Offer → Option Proposal
  | .ok (.proposed proposal) => some proposal
  | _ => none

/-- The refusal in an answer. -/
def refused? : Except Refusal Offer → Option Refusal
  | .error refusal => some refusal
  | _ => none

theorem proposed?_eq_some_iff {answer : Except Refusal Offer} {proposal : Proposal} :
    proposed? answer = some proposal ↔ answer = .ok (.proposed proposal) := by
  rcases answer with refusal | (found | reason) <;> simp [proposed?]

theorem refused?_eq_some_iff {answer : Except Refusal Offer} {refusal : Refusal} :
    refused? answer = some refusal ↔ answer = .error refusal := by
  rcases answer with found | (proposal | reason) <;> simp [refused?]

/-- The lines from `n` on at which the sweep stops, and what it reports there. -/
structure Stops (settings : Settings) (lines : List Text) (n : Nat) (stops : List Nat)
    (report : Report) : Prop where
  le : ∀ stop ∈ stops, n ≤ stop
  lt_length : ∀ stop ∈ stops, stop < lines.length
  first_eq : ∀ stop ∈ stops, (locate lines stop).first = stop
  reported : ∀ stop ∈ stops, ¬Skipped settings lines (locate lines stop)
  behind : stops.Pairwise fun s t => (locate lines s).last < t
  proposals_eq : report.proposals = stops.filterMap fun s => proposed? (propose settings lines s)
  refusals_eq : report.refusals = stops.filterMap fun s => refused? (propose settings lines s)
  covered : ∀ line, n ≤ line → line < lines.length → ¬Skipped settings lines (locate lines line) →
    ∃ stop ∈ stops, (locate lines stop).Spans line

namespace Stops

variable {stops : List Nat} {report report' : Report}

theorem skip (hskipped : Skipped settings lines (locate lines n))
    (h : Stops settings lines (n + 1) stops report) : Stops settings lines n stops report := by
  refine ⟨fun stop hstop => Nat.le_of_succ_le (h.le stop hstop), h.lt_length, h.first_eq,
    h.reported, h.behind, h.proposals_eq, h.refusals_eq, ?_⟩
  intro line hle hlt hreported
  rcases Nat.lt_or_eq_of_le hle with hless | rfl
  · exact h.covered line hless hlt hreported
  · exact absurd hskipped hreported

theorem found (hn : n < lines.length) (hfirst : (locate lines n).first = n)
    (hreported : ¬Skipped settings lines (locate lines n))
    (h : Stops settings lines ((locate lines n).last + 1) stops report)
    (hproposals : report'.proposals =
      (proposed? (propose settings lines n)).toList ++ report.proposals)
    (hrefusals : report'.refusals =
      (refused? (propose settings lines n)).toList ++ report.refusals) :
    Stops settings lines n (n :: stops) report' := by
  have hlast := le_last hn
  refine ⟨?_, List.forall_mem_cons.mpr ⟨hn, h.lt_length⟩,
    List.forall_mem_cons.mpr ⟨hfirst, h.first_eq⟩,
    List.forall_mem_cons.mpr ⟨hreported, h.reported⟩,
    List.pairwise_cons.mpr ⟨fun stop hstop => h.le stop hstop, h.behind⟩, ?_, ?_, ?_⟩
  · refine List.forall_mem_cons.mpr ⟨Nat.le_refl n, fun stop hstop => ?_⟩
    have hle := h.le stop hstop
    omega
  · rw [hproposals, h.proposals_eq, List.filterMap_cons]
    cases proposed? (propose settings lines n) <;> rfl
  · rw [hrefusals, h.refusals_eq, List.filterMap_cons]
    cases refused? (propose settings lines n) <;> rfl
  · intro line hle hlt hreported
    by_cases hspan : line ≤ (locate lines n).last
    · exact ⟨n, List.mem_cons_self, by rw [hfirst]; exact hle, hspan⟩
    · obtain ⟨stop, hstop, hspans⟩ := h.covered line (Nat.lt_of_not_le hspan) hlt hreported
      exact ⟨stop, List.mem_cons_of_mem n hstop, hspans⟩

section Report

variable (h : Stops settings lines n stops report)

include h

theorem first_of_proposed {stop : Nat} {proposal : Proposal} (hstop : stop ∈ stops)
    (hanswer : proposed? (propose settings lines stop) = some proposal) :
    proposal.statement.first = stop := by
  rw [statement_of_propose (proposed?_eq_some_iff.mp hanswer), h.first_eq stop hstop]

theorem line_of_refused {stop : Nat} {refusal : Refusal} (hstop : stop ∈ stops)
    (hanswer : refused? (propose settings lines stop) = some refusal) : refusal.line = stop := by
  rw [refused?_eq_some_iff, propose_eq_offer (h.lt_length stop hstop)] at hanswer
  rw [line_of_offer hanswer, h.first_eq stop hstop]

theorem of_mem_proposals {proposal : Proposal} (hmem : proposal ∈ report.proposals) :
    proposal.statement.first ∈ stops ∧
      propose settings lines proposal.statement.first = .ok (.proposed proposal) := by
  rw [h.proposals_eq] at hmem
  obtain ⟨stop, hstop, hanswer⟩ := List.mem_filterMap.mp hmem
  rw [h.first_of_proposed hstop hanswer]
  exact ⟨hstop, proposed?_eq_some_iff.mp hanswer⟩

theorem of_mem_refusals {refusal : Refusal} (hmem : refusal ∈ report.refusals) :
    refusal.line ∈ stops ∧ propose settings lines refusal.line = .error refusal := by
  rw [h.refusals_eq] at hmem
  obtain ⟨stop, hstop, hanswer⟩ := List.mem_filterMap.mp hmem
  rw [h.line_of_refused hstop hanswer]
  exact ⟨hstop, refused?_eq_some_iff.mp hanswer⟩

theorem lt_of_behind {s t : Nat} (hs : s ∈ stops) (hlt : (locate lines s).last < t) : s < t :=
  (le_last (h.lt_length s hs)).trans_lt hlt

theorem proposals_increasing :
    report.proposals.Pairwise fun p q => p.statement.first < q.statement.first := by
  rw [h.proposals_eq, List.pairwise_filterMap]
  refine h.behind.imp_of_mem fun hs ht hlt p hp q hq => ?_
  rw [h.first_of_proposed hs hp, h.first_of_proposed ht hq]
  exact h.lt_of_behind hs hlt

theorem refusals_increasing : report.refusals.Pairwise fun x y => x.line < y.line := by
  rw [h.refusals_eq, List.pairwise_filterMap]
  refine h.behind.imp_of_mem fun hs ht hlt x hx y hy => ?_
  rw [h.line_of_refused hs hx, h.line_of_refused ht hy]
  exact h.lt_of_behind hs hlt

theorem apart {s t : Nat} (hs : s ∈ stops) (ht : t ∈ stops) (hne : s ≠ t) :
    (locate lines s).Apart (locate lines t) := by
  have : Std.Symm fun s t => (locate lines s).Apart (locate lines t) := ⟨fun _ _ => .symm⟩
  have happart : stops.Pairwise fun s t => (locate lines s).Apart (locate lines t) := by
    refine h.behind.imp_of_mem fun hs ht hlt line => ?_
    rintro ⟨⟨-, hlast⟩, hfirst, -⟩
    rw [h.first_eq _ ht] at hfirst
    omega
  exact happart.forall hs ht hne

theorem statements_eq_map :
    report.statements lines = (report.proposals.map (·.statement.first) ++
      report.refusals.map Refusal.line).map (locate lines) := by
  rw [Report.statements, List.map_append, List.map_map, List.map_map]
  congr 1
  exact List.map_congr_left fun _ hmem => statement_of_propose (h.of_mem_proposals hmem).2

theorem statements_apart : (report.statements lines).Pairwise Apart := by
  have hnodup : (report.proposals.map (·.statement.first) ++
      report.refusals.map Refusal.line).Nodup := by
    refine List.nodup_append.mpr ⟨?_, ?_, ?_⟩
    · exact List.pairwise_map.mpr (h.proposals_increasing.imp Nat.ne_of_lt)
    · exact List.pairwise_map.mpr (h.refusals_increasing.imp Nat.ne_of_lt)
    · intro s hs t ht heq
      obtain ⟨proposal, hproposal, rfl⟩ := List.mem_map.mp hs
      obtain ⟨refusal, hrefusal, rfl⟩ := List.mem_map.mp ht
      have hanswer := (h.of_mem_proposals hproposal).2
      rw [heq, (h.of_mem_refusals hrefusal).2] at hanswer
      cases hanswer
  have hstops : ∀ s ∈ report.proposals.map (·.statement.first) ++
      report.refusals.map Refusal.line, s ∈ stops := by
    intro s hs
    rcases List.mem_append.mp hs with hs | hs
    · obtain ⟨proposal, hproposal, rfl⟩ := List.mem_map.mp hs
      exact (h.of_mem_proposals hproposal).1
    · obtain ⟨refusal, hrefusal, rfl⟩ := List.mem_map.mp hs
      exact (h.of_mem_refusals hrefusal).1
  rw [h.statements_eq_map, List.pairwise_map]
  exact List.Pairwise.imp_of_mem
    (fun hs ht hne => h.apart (hstops _ hs) (hstops _ ht) hne) hnodup

theorem locate_mem_statements {stop : Nat} (hstop : stop ∈ stops) :
    locate lines stop ∈ report.statements lines := by
  rw [Report.statements, List.mem_append, List.mem_map, List.mem_map, h.proposals_eq, h.refusals_eq]
  cases hanswer : propose settings lines stop with
  | error refusal =>
      have hrefused : refused? (propose settings lines stop) = some refusal :=
        refused?_eq_some_iff.mpr hanswer
      refine .inr ⟨refusal, List.mem_filterMap.mpr ⟨stop, hstop, hrefused⟩, ?_⟩
      rw [h.line_of_refused hstop hrefused]
  | ok offered =>
      cases offered with
      | proposed proposal =>
          refine .inl ⟨proposal, List.mem_filterMap.mpr ⟨stop, hstop, ?_⟩,
            statement_of_propose hanswer⟩
          exact proposed?_eq_some_iff.mpr hanswer
      | skipped reason =>
          rw [propose_eq_offer (h.lt_length stop hstop)] at hanswer
          exact absurd ⟨reason, hanswer⟩ (h.reported stop hstop)

end Report

end Stops

theorem Tried.exists_stops (h : Tried settings lines n) :
    ∃ stops, Stops settings lines n stops (scanFrom settings lines n) := by
  fun_induction scanFrom settings lines n with
  | case1 n hn statement past found hoffer report ih =>
      have hreported := not_skipped_of_proposed hoffer
      have hpropose : propose settings lines n = .ok (.proposed found) :=
        (propose_eq_offer hn).trans hoffer
      obtain ⟨stops, hstops⟩ := ih (tried_past hn hreported)
      have hpast : past = (locate lines n).last + 1 := congrArg Nat.succ (max_last hn)
      rw [hpast] at hstops
      exact ⟨n :: stops, hstops.found hn (h.first_eq hn hreported) hreported
        (by rw [hpropose, ← hpast]; rfl) (by rw [hpropose, ← hpast]; rfl)⟩
  | case2 n hn statement reason hoffer ih =>
      obtain ⟨stops, hstops⟩ := ih (h.succ ⟨reason, hoffer⟩)
      exact ⟨stops, hstops.skip ⟨reason, hoffer⟩⟩
  | case3 n hn statement past refusal hoffer report ih =>
      have hreported := not_skipped_of_refused hoffer
      have hpropose : propose settings lines n = .error refusal :=
        (propose_eq_offer hn).trans hoffer
      obtain ⟨stops, hstops⟩ := ih (tried_past hn hreported)
      have hpast : past = (locate lines n).last + 1 := congrArg Nat.succ (max_last hn)
      rw [hpast] at hstops
      exact ⟨n :: stops, hstops.found hn (h.first_eq hn hreported) hreported
        (by rw [hpropose, ← hpast]; rfl) (by rw [hpropose, ← hpast]; rfl)⟩
  | case4 n hn =>
      exact ⟨[], by simp, by simp, by simp, by simp, .nil, rfl, rfl, fun line hle hlt => by omega⟩

theorem exists_stops (settings : Settings) (lines : List Text) :
    ∃ stops, Stops settings lines 0 stops (scan settings lines) :=
  Tried.exists_stops fun _ hm => absurd hm (Nat.not_lt_zero _)

/-- The sweep and the answers at single lines agree. What the sweep reports is the answer at the
first line of its statement; the statements have no line in common, and both lists go down the
lines; and a line with an answer other than a skip lies in a statement that is reported. -/
theorem scan_agrees_with_propose (settings : Settings) (lines : List Text) :
    (∀ proposal ∈ (scan settings lines).proposals,
        propose settings lines proposal.statement.first = .ok (.proposed proposal)) ∧
      (∀ refusal ∈ (scan settings lines).refusals,
        refusal.line < lines.length ∧ propose settings lines refusal.line = .error refusal) ∧
      ((scan settings lines).statements lines).Pairwise Apart ∧
      (scan settings lines).proposals.Pairwise
        (fun p q => p.statement.first < q.statement.first) ∧
      (scan settings lines).refusals.Pairwise (fun x y => x.line < y.line) ∧
      ∀ line < lines.length, (∀ reason, propose settings lines line ≠ .ok (.skipped reason)) →
        ∃ statement ∈ (scan settings lines).statements lines, statement.Spans line := by
  obtain ⟨stops, hstops⟩ := exists_stops settings lines
  refine ⟨fun proposal hmem => (hstops.of_mem_proposals hmem).2, ?_, hstops.statements_apart,
    hstops.proposals_increasing, hstops.refusals_increasing, ?_⟩
  · intro refusal hmem
    obtain ⟨hstop, hanswer⟩ := hstops.of_mem_refusals hmem
    exact ⟨hstops.lt_length _ hstop, hanswer⟩
  · intro line hline hreported
    have hnot : ¬Skipped settings lines (locate lines line) := by
      rintro ⟨reason, hreason⟩
      exact hreported reason ((propose_eq_offer hline).trans hreason)
    obtain ⟨stop, hstop, hspans⟩ := hstops.covered line (Nat.zero_le line) hline hnot
    exact ⟨_, hstops.locate_mem_statements hstop, hspans⟩

/-- A call on two lines that is replaced, and one with a message that cannot be read. -/
def answeredLines : List Text :=
  ["class A \x7b java.util.logging.Logger log;", " log.info(\"a\" +", "  x);", " log.info(1 + x);",
    "\x7d"].map String.toList

theorem scan_answeredLines_agrees :
    (scan .default answeredLines).proposals.map (·.statement.first) = [1] ∧
      (scan .default answeredLines).refusals = [.malformed 4 (.invalid "1 + x".toList)] ∧
      propose .default answeredLines 3 = .error (.malformed 4 (.invalid "1 + x".toList)) ∧
      ∃ statement ∈ (scan .default answeredLines).statements answeredLines, statement.Spans 2 := by
  have hrefusals : (scan .default answeredLines).refusals =
      [.malformed 4 (.invalid "1 + x".toList)] := by decide +kernel
  have hproposed : proposed? (propose .default answeredLines 2) ≠ none := by decide +kernel
  obtain ⟨-, hrefused, -, -, -, hcovered⟩ := scan_agrees_with_propose .default answeredLines
  refine ⟨by decide +kernel, hrefusals, (hrefused (.malformed 4 (.invalid "1 + x".toList))
    (by rw [hrefusals]; exact List.mem_singleton_self _)).2, hcovered 2 (by decide) ?_⟩
  intro reason hskipped
  rw [hskipped] at hproposed
  exact hproposed rfl

end Formatter

end LogTemplate
