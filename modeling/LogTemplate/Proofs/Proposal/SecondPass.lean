import LogTemplate.Proofs.Proposal.Enclosing
import LogTemplate.Proofs.Proposal.Pass
import LogTemplate.Proofs.Proposal.Search

/-!
A second pass over a source. After the first pass the lines are the old ones with each replacement
in the place of its statement, and the search goes down the old and the new lines side by side: a
replacement is skipped, a statement that was refused is refused again, and a statement that was
skipped is skipped again. The last of these takes that the loggers are still resolved as before,
and that a rewritten statement without parameters can be passed over by the statements around it.
-/

namespace LogTemplate.Formatter

open Delimiter Statement

variable {settings : Settings} {lines lines' : List Text} {proposal : Proposal}
  {proposals : List Proposal} {n n' : Nat}

/-- The part of the statement around a line that comes before another statement with the same
end. -/
def codeBefore (lines : List Text) (trigger : Nat) (statement : Statement) : Text :=
  (locate lines trigger).code.take ((locate lines trigger).code.length - statement.code.length)

/-- A proposal without parameters can be passed over by the calls around it: when the statement
around a line further up is a call and ends with the proposal's statement, then no literal is open
where the latter begins, and its span is the call that is replaced. -/
def Clear (lines : List Text) (proposal : Proposal) : Prop :=
  proposal.template.params = [] → ∀ trigger < proposal.statement.first,
    (locate lines trigger).last = proposal.statement.last →
    isLoggingCall (locate lines trigger).code = true →
    (Reader.fresh.run (codeBefore lines trigger proposal.statement)).mode = .outside ∧
      codeAbove lines proposal.statement ++ covered (lineAt lines proposal.statement.last).trim =
        covered proposal.statement.code

instance (lines : List Text) (proposal : Proposal) : Decidable (Clear lines proposal) :=
  inferInstanceAs (Decidable (_ → ∀ trigger < _, _ → _ → _ ∧ _))

/-- All calls in the second source have loggers of the same libraries in both sources. -/
def Agree (settings : Settings) (lines lines' : List Text) : Prop :=
  ∀ trigger < lines'.length, SameLibrary settings lines lines' (locate lines' trigger).code

instance (settings : Settings) (lines lines' : List Text) :
    Decidable (Agree settings lines lines') :=
  inferInstanceAs (Decidable (∀ trigger < lines'.length, SameLibrary settings lines lines' _))

theorem trimmed_locate (hn : n < lines.length) : Text.Trimmed (locate lines n).code := by
  obtain ⟨extent, hextent⟩ := exists_surrounds hn
  rw [← hextent.statement_eq]
  exact extent.trimmed_code

theorem newline_not_mem_locate (hn : n < lines.length) (h : ∀ line ∈ lines, '\n' ∉ line) :
    '\n' ∉ (locate lines n).code := by
  obtain ⟨extent, hextent⟩ := exists_surrounds hn
  rw [← hextent.statement_eq]
  exact newline_not_mem_code hextent.lines_eq h

theorem getElem?_of_drop_eq_cons {rest : List Text} {line : Text}
    (h : lines.drop n = line :: rest) : lines[n]? = some line ∧ lines.drop (n + 1) = rest := by
  rw [← List.head?_drop, ← List.tail_drop, h]
  exact ⟨rfl, rfl⟩

/-- The searches in two sources have come as far as each other: what lies above is the same, and
below the proposals of the first source have been put in their places. -/
structure Aligned (lines lines' : List Text) (n n' : Nat) (proposals : List Proposal) : Prop where
  above_eq : above lines' n' = above lines n
  rewritten : Rewritten n (lines.drop n) proposals (lines'.drop n')

theorem Aligned.succ (h : Aligned lines lines' n n' proposals) (hn : n < lines.length)
    (hfirst : ∀ proposal ∈ proposals, n < proposal.statement.first) :
    n' < lines'.length ∧ Aligned lines lines' (n + 1) (n' + 1) proposals := by
  have hget : lines[n]? = some lines[n] := List.getElem?_eq_getElem hn
  have hrewritten := h.rewritten
  rw [List.drop_eq_getElem_cons hn] at hrewritten
  obtain ⟨rest, hrest, hrewritten⟩ := hrewritten.exists_cons hfirst
  obtain ⟨hget', hdrop⟩ := getElem?_of_drop_eq_cons hrest
  refine ⟨(List.getElem?_eq_some_iff.mp hget').1, ?_, hdrop ▸ hrewritten⟩
  rw [above_succ hget, above_succ hget', h.above_eq]

/-- A statement that was replaced is skipped, and behind it the searches have come as far as each
other. -/
theorem Aligned.replaced (h : Aligned lines lines' n n' (proposal :: proposals))
    (hname : DottedName settings.levelType) (hoffered : Offered settings lines n proposal)
    (hfirst : (locate lines n).first = n) :
    n' < lines'.length ∧ Skipped settings lines' (locate lines' n') ∧
      Aligned lines lines' ((locate lines n).last + 1) (n' + 1) proposals := by
  have hn := hoffered.lt_length
  have hreported := not_skipped_of_proposed hoffered.offer_eq
  obtain ⟨extent, hextent, hstatement, ⟨origin⟩⟩ := exists_extent_of_offer hn hoffered.offer_eq
  obtain ⟨hreceiver, hlevel, -⟩ := origin.shape hstatement
  rw [hextent.statement_eq] at hstatement
  have hblank := above_first hn
  rw [hfirst, ← h.above_eq] at hblank
  obtain ⟨indent, after, below', hindent, hsource, hrewritten⟩ :=
    h.rewritten.exists_newLine (hstatement ▸ hfirst)
  obtain ⟨hget, hdrop⟩ := getElem?_of_drop_eq_cons hsource
  refine ⟨(List.getElem?_eq_some_iff.mp hget).1,
    skipped_newLine origin hreceiver hlevel hname hindent hsource hblank, ?_, ?_⟩
  · have hmem := origin.semicolon_mem_newLine indent after
    rw [above_last hn (semicolon_mem_of_not_skipped hreported),
      above_succ_of_closes hget (closes_of_semicolon_mem hmem)]
  · have hle := le_last hn
    rw [hdrop]
    rwa [← hstatement, List.drop_drop, Nat.add_sub_cancel' (by omega)] at hrewritten

theorem Aligned.past (h : Aligned lines lines' n n' proposals) (hn : n < lines.length)
    (hcode : ';' ∈ (locate lines n).code)
    (hfirst : ∀ proposal ∈ proposals, (locate lines n).last + 1 ≤ proposal.statement.first) :
    n' < lines'.length ∧ (locate lines' n').code = (locate lines n).code ∧
      Aligned lines lines' ((locate lines n).last + 1) ((locate lines' n').last + 1) proposals := by
  obtain ⟨line, hline, hmem⟩ := exists_last hn hcode
  have hle := le_last hn
  obtain ⟨upper, hdrop, hlength⟩ : ∃ upper,
      lines.drop n = (upper ++ [line]) ++ lines.drop ((locate lines n).last + 1) ∧
        n + (upper ++ [line]).length = (locate lines n).last + 1 := by
    obtain ⟨hlt, rfl⟩ := List.getElem?_eq_some_iff.mp hline
    refine ⟨(lines.drop n).take ((locate lines n).last - n), ?_, ?_⟩
    · rw [List.append_assoc, List.singleton_append, ← List.drop_eq_getElem_cons hlt]
      conv_rhs => rw [← Nat.add_sub_cancel' hle, ← List.drop_drop, Nat.add_sub_cancel_left]
      exact (List.take_append_drop _ _).symm
    · simp only [List.length_append, List.length_take, List.length_drop, List.length_singleton]
      omega
  have hrewritten := h.rewritten
  rw [hdrop] at hrewritten
  obtain ⟨rest, hrest, hrewritten⟩ := hrewritten.exists_append (hlength ▸ hfirst)
  rcases takeIn_append_cases (above lines n).reverse.flatten (upper ++ [line]) with
    ⟨taken, -, htaken⟩ | ⟨hopen, -, -⟩
  · have hn' : n' < lines'.length := by
      have hne : lines'.drop n' ≠ [] := by simp [hrest]
      simpa using hne
    have hsame : (locate lines' n').code = (locate lines n).code := by
      rw [locate_code, locate_code, h.above_eq, hrest, hdrop, htaken, htaken]
    have hlast := last_succ hn
    have hlast' := last_succ hn'
    rw [hdrop, htaken] at hlast
    rw [h.above_eq, hrest, htaken] at hlast'
    refine ⟨hn', hsame, ?_, ?_⟩
    · rw [above_last hn hcode, above_last hn' (hsame ▸ hcode)]
    · have hcount : (locate lines' n').last + 1 = n' + (upper ++ [line]).length := by omega
      have hdrop' : lines'.drop ((locate lines' n').last + 1) = rest := by
        rw [hcount, ← List.drop_drop, hrest, List.drop_left]
      rw [hdrop', ← hlength]
      rwa [← hlength] at hrewritten
  · exact absurd hmem (hopen line (by simp))

/-- What a statement around line `n` holds once lines from there on have been taken in. -/
def codeThrough (lines : List Text) (n : Nat) (kept : List Text) : Text :=
  (above lines n).reverse.flatten ++ (kept.map Text.trim).flatten

section Kept

variable {kept upper below : List Text} {final : Text}
  (hlines : lines.drop n = kept ++ (upper ++ final :: below))

include hlines

theorem locate_of_kept (hn : n < lines.length)
    (htaken : ∀ rest, takeIn (above lines n).reverse.flatten (kept ++ rest) =
      ((takeIn (codeThrough lines n kept) rest).1,
        kept.length + (takeIn (codeThrough lines n kept) rest).2))
    (hbegun : codeThrough lines n kept ≠ [])
    (hkept : ∀ line ∈ kept, ';' ∉ line) (hupper : ∀ line ∈ upper, ';' ∉ line)
    (hfinal : ';' ∈ final) :
    (locate lines n).code =
        codeThrough lines n kept ++ ((upper ++ [final]).map Text.trim).flatten ∧
      (locate lines n).last = n + kept.length + upper.length := by
  have hopen : ';' ∉ codeThrough lines n kept := by
    rw [codeThrough, List.mem_append, not_or, List.mem_flatten, List.mem_flatten]
    constructor
    · rintro ⟨line, hline, hmem⟩
      exact semicolon_not_mem_above line (List.mem_reverse.mp hline) hmem
    · rintro ⟨_, htrimmed, hmem⟩
      obtain ⟨line, hline, rfl⟩ := List.mem_map.mp htrimmed
      exact hkept line hline ((Text.mem_trim_iff (by decide)).mp hmem)
  have htake := takeIn_append_final below hopen (fun _ => hbegun) hupper hfinal
  have hlast := last_succ hn
  rw [locate_code]
  rw [hlines, htaken, htake] at hlast ⊢
  refine ⟨rfl, ?_⟩
  simp only at hlast
  omega

variable (hfirst : proposal.statement.first = n + kept.length)

include hfirst

theorem exists_brace_mem {trigger : Nat} (hn : n < lines.length)
    (hoffered : Offered settings lines trigger proposal)
    (hbegun : codeThrough lines n kept ≠ []) (hkept : ∀ line ∈ kept, ';' ∉ line) :
    ∃ c ∈ codeThrough lines n kept, c = '{' ∨ c = '}' := by
  obtain ⟨line, hline, hcloses⟩ : ∃ line ∈ kept, closes line = true := by
    by_contra hnone
    have hopen : ∀ line ∈ kept, closes line = false := by
      intro line hline
      by_contra hcloses
      exact hnone ⟨line, hline, by simpa using hcloses⟩
    have hblank := above_first hoffered.lt_length
    have hlength : (lines.take n).length = n := by
      rw [List.length_take]
      omega
    have happend := @above_append (lines.take n) kept (upper ++ final :: below) hopen
    rw [← hlines, List.take_append_drop, hlength, ← hfirst,
      (nonempty_origin_of_offer hoffered.offer_eq).1] at happend
    rw [happend] at hblank
    apply hbegun
    rw [codeThrough, List.append_eq_nil_iff, List.flatten_eq_nil_iff, List.flatten_eq_nil_iff]
    exact ⟨fun line hline => hblank line (List.mem_append_right _ (List.mem_reverse.mp hline)),
      fun line hline => hblank line (List.mem_append_left _ (List.mem_reverse.mpr hline))⟩
  obtain ⟨c, hc, hmark⟩ := List.any_eq_true.mp hcloses
  have hbrace : c = '{' ∨ c = '}' := by
    simp only [Bool.or_eq_true, beq_iff_eq] at hmark
    rcases hmark with (rfl | hmark) | hmark
    · exact absurd hc (hkept line hline)
    · exact .inl hmark
    · exact .inr hmark
  have hvisible : isBlank c = false := by
    rcases hbrace with rfl | rfl
    · decide
    · decide
  refine ⟨c, List.mem_append_right _ ?_, hbrace⟩
  exact List.mem_flatten_of_mem (List.mem_map_of_mem hline) ((Text.mem_trim_iff hvisible).mpr hc)

variable (hlast : proposal.statement.last = n + kept.length + upper.length)

include hlast

theorem extent_eq {extent : Extent} {trigger : Nat} (hextent : Surrounds extent lines trigger)
    (hstatement : extent.statement = proposal.statement) :
    extent.upper = upper ∧ extent.final = final := by
  have hdrop : lines.drop proposal.statement.first = upper ++ final :: below := by
    rw [hfirst, ← List.drop_drop, hlines, List.drop_left]
  constructor
  · rw [← extent.take_drop_lines, hstatement, hextent.lines_eq, hdrop, hlast, hfirst,
      Nat.add_sub_cancel_left, List.take_left]
  · have hfinal := extent.getElem?_last
    have hget : (lines.drop proposal.statement.first)[upper.length]? = some final := by
      rw [hdrop]
      simp
    rw [List.getElem?_drop, hfirst, ← hlast] at hget
    rw [hstatement, hextent.lines_eq, hget] at hfinal
    exact (Option.some.inj hfinal).symm

theorem trimEnd_after_eq {extent : Extent} {trigger : Nat}
    (hextent : Surrounds extent lines trigger)
    (hstatement : extent.statement = proposal.statement)
    (origin : Origin settings lines proposal)
    {blanks after : Text} (hblanks : Text.AllBlank blanks)
    (hfinal : final = blanks ++ (covered final.trim ++ after))
    (hexact : codeAbove lines proposal.statement ++
      covered (lineAt lines proposal.statement.last).trim = covered proposal.statement.code) :
    after.trimEnd = origin.layout.rest := by
  obtain ⟨hreceiver, hlevel, -⟩ := origin.shape hstatement
  obtain ⟨rfl, rfl⟩ := extent_eq hlines hfirst hlast hextent hstatement
  have hnil := origin.final_trim_ne_nil hstatement
  have htrim : extent.final.trim = covered extent.final.trim ++ after.trimEnd := by
    conv_lhs => rw [hfinal]
    rw [Text.trim_blank_append hblanks]
    exact Text.trim_append after (trimmed_covered (Text.trimmed_trim _)) (covered_ne_nil hnil)
  have habove : codeAbove lines proposal.statement = (extent.upper.map Text.trim).flatten := by
    rw [codeAbove, ← hstatement, ← hextent.lines_eq, extent.take_drop_lines]
  rw [habove, ← hstatement, ← hextent.lines_eq, lineAt_last, hstatement, ← origin.code_eq,
    covered_code origin.layout hreceiver hlevel] at hexact
  have hcode : origin.layout.code =
      ((extent.upper.map Text.trim).flatten ++ covered extent.final.trim) ++ after.trimEnd := by
    rw [origin.code_eq, ← hstatement, List.append_assoc, ← htrim]
    simp [Extent.statement, Extent.block]
  rw [← origin.layout.text_append_rest, ← hexact] at hcode
  exact (List.append_cancel_left hcode).symm

end Kept

section Search

variable (hname : DottedName settings.levelType) (hagree : Agree settings lines lines')
  (hlines : ∀ line ∈ lines, '\n' ∉ line) (hlines' : ∀ line ∈ lines', '\n' ∉ line)

include hname hagree hlines hlines'

theorem Aligned.skipped (h : Aligned lines lines' n n' proposals) (hn : n < lines.length)
    (hn' : n' < lines'.length)
    (hproposals : ∀ proposal ∈ proposals, n < proposal.statement.first ∧ Clear lines proposal ∧
      ∃ trigger, Offered settings lines trigger proposal)
    (hskipped : Skipped settings lines (locate lines n)) :
    Skipped settings lines' (locate lines' n') := by
  have hsame : (locate lines' n').code = (locate lines n).code →
      Skipped settings lines' (locate lines' n') :=
    fun hcode => hskipped.of_code_eq hcode (hcode ▸ hagree n' hn')
  obtain ⟨habove, hrewritten⟩ := h
  generalize hsource : lines.drop n = source at hrewritten
  generalize hsource' : lines'.drop n' = source' at hrewritten
  cases hrewritten with
  | nil =>
      apply hsame
      rw [locate_code, locate_code, habove, hsource, hsource']
  | @cons _ kept upper below below' final indent blanks after proposal _ hfirst hlast hcode hindent
      hblanks hfinal _ =>
      obtain ⟨hlt, hclear, trigger, hoffered⟩ := hproposals proposal List.mem_cons_self
      rcases takeIn_append_cases (above lines n).reverse.flatten kept with
        ⟨taken, -, htaken⟩ | ⟨hkept, hbegun, htaken⟩
      · -- The statement ends within the lines that are kept, so it is the same one in both sources.
        apply hsame
        rw [locate_code, locate_code, habove, hsource, hsource', htaken, htaken]
      · -- It goes on into the statement that was replaced.
        obtain ⟨extent, hextent, hstatement, ⟨origin⟩⟩ :=
          exists_extent_of_offer hoffered.lt_length hoffered.offer_eq
        obtain ⟨hreceiver, hlevel, htail⟩ := origin.shape hstatement
        obtain ⟨hupper, hfinalEq⟩ := extent_eq hsource hfirst hlast hextent hstatement
        have hbegun : codeThrough lines n kept ≠ [] := by
          apply hbegun
          rintro rfl
          simp [hfirst] at hlt
        have hthrough : codeThrough lines' n' kept = codeThrough lines n kept := by
          rw [codeThrough, codeThrough, habove]
        obtain ⟨hcodeEq, hlastEq⟩ := locate_of_kept hsource hn htaken hbegun hkept
          (hupper ▸ extent.semicolon_not_mem) (hfinalEq ▸ origin.semicolon_mem_final hstatement)
        rw [← hcode] at hcodeEq
        have hcodeEq' : (locate lines' n').code =
            codeThrough lines n kept ++ (proposal.replacement ++ after.trimEnd) := by
          obtain ⟨hcodeEq', -⟩ := @locate_of_kept lines' n' kept [] below' _ hsource' hn'
            (by rwa [hthrough, habove]) (by rwa [hthrough]) hkept (by simp)
            (origin.semicolon_mem_newLine indent after)
          rw [hcodeEq', hthrough]
          simp [origin.trim_newLine hreceiver hindent]
        obtain ⟨c, hc, hbrace⟩ := exists_brace_mem hsource hfirst hn hoffered hbegun hkept
        refine skipped_enclosing origin hreceiver hlevel htail hname hc hbrace hcodeEq hcodeEq'
          (trimmed_locate hn) (trimmed_locate hn') (newline_not_mem_locate hn hlines)
          (newline_not_mem_locate hn' hlines') (hagree n' hn') ?_ hskipped
        intro hparams hlogging
        obtain ⟨hmode, hexact⟩ := hclear hparams n hlt (hlastEq.trans hlast.symm) hlogging
        rw [codeBefore, hcodeEq, List.length_append, Nat.add_sub_cancel, List.take_left] at hmode
        exact ⟨hmode,
          trimEnd_after_eq hsource hfirst hlast hextent hstatement origin hblanks hfinal hexact⟩

/-- From lines where the searches have come as far as each other, the second one finds nothing. -/
theorem Tried.proposals_eq_nil (htried : Tried settings lines n)
    (hclear : ∀ proposal ∈ (scanFrom settings lines n).proposals, Clear lines proposal) :
    ∀ n', Aligned lines lines' n n' (scanFrom settings lines n).proposals →
      (scanFrom settings lines' n').proposals = [] := by
  fun_induction scanFrom settings lines n with
  | case1 n hn statement past found hoffer report ih =>
      intro n' h
      have hreported := not_skipped_of_proposed hoffer
      have hpast : past = (locate lines n).last + 1 := congrArg (· + 1) (max_last hn)
      obtain ⟨hn', hagain, hnext⟩ :=
        h.replaced hname ⟨hn, hoffer⟩ (htried.first_eq hn hreported)
      rw [scanFrom_of_skipped hn' hagain]
      rw [← hpast] at hnext
      exact ih (tried_past hn hreported)
        (fun proposal hmem => hclear proposal (List.mem_cons_of_mem _ hmem)) _ hnext
  | case2 n hn statement reason hoffer ih =>
      intro n' h
      have hskipped : Skipped settings lines (locate lines n) := ⟨reason, hoffer⟩
      have hfirst := (htried.succ hskipped).le_first
      have hproposals : ∀ proposal ∈ (scanFrom settings lines (n + 1)).proposals,
          n < proposal.statement.first ∧ Clear lines proposal ∧
            ∃ trigger, Offered settings lines trigger proposal := by
        intro proposal hmem
        obtain ⟨trigger, -, hoffered⟩ := exists_offered_of_mem hmem
        exact ⟨hfirst proposal hmem, hclear proposal hmem, trigger, hoffered⟩
      obtain ⟨hn', hnext⟩ := h.succ hn hfirst
      have hagain := h.skipped hname hagree hlines hlines' hn hn' hproposals hskipped
      rw [scanFrom_of_skipped hn' hagain]
      exact ih (htried.succ hskipped) hclear _ hnext
  | case3 n hn statement past refusal hoffer report ih =>
      intro n' h
      have hreported := not_skipped_of_refused hoffer
      have hnext := tried_past hn hreported
      have hpast : past = (locate lines n).last + 1 := congrArg (· + 1) (max_last hn)
      obtain ⟨hn', hcode, haligned⟩ :=
        h.past hn (semicolon_mem_of_not_skipped hreported) (hpast ▸ hnext.le_first)
      obtain ⟨refusal', hagain⟩ := exists_refusal_of_code_eq hcode (hcode ▸ hagree n' hn') hoffer
      rw [proposals_scanFrom_of_refused hn' hagain]
      rw [← hpast] at haligned
      exact ih hnext hclear _ haligned
  | case4 n hn =>
      intro n' h
      have hnil : lines.drop n = [] := List.drop_eq_nil_of_le (by omega)
      exact proposals_scanFrom_of_le (List.drop_eq_nil_iff.mp (h.rewritten.eq_of_nil.trans hnil))

end Search

/-- A pass over a text puts all its proposals in place. If the loggers are still resolved as before,
and every proposal without parameters can be passed over by the calls around it, then nothing is
offered in the text that the pass leaves, and a second pass leaves it as it is. -/
theorem scan_after_pass (settings : Settings) (file : Path) {text : Text}
    (hsize : text.byteSize < wordSize) (hname : DottedName settings.levelType) :
    ∃ pass, Pass.run settings file text = .ok pass ∧
      (Agree settings (Buffer.ofText text).contents (Buffer.ofText pass.text).contents →
        (∀ proposal ∈ (scan settings (Buffer.ofText text).contents).proposals,
          Clear (Buffer.ofText text).contents proposal) →
        (scan settings (Buffer.ofText pass.text).contents).proposals = [] ∧
          Pass.run settings file pass.text = .ok ⟨[], [], pass.text⟩) := by
  have hoffered : ∀ proposal ∈ (scan settings (Buffer.ofText text).contents).proposals,
      ∃ trigger, Offered settings (Buffer.ofText text).contents trigger proposal := by
    intro proposal hmem
    obtain ⟨trigger, -, hoffered⟩ := exists_offered_of_mem hmem
    exact ⟨trigger, hoffered⟩
  obtain ⟨edits, out, results, hedits, happly, hrewritten⟩ :=
    exists_applyAll_of_offered file hsize hname hoffered (scanFrom_pairwise settings _ 0)
  refine ⟨⟨edits, results, out⟩, run_eq_ok hedits happly, fun hagree hclear => ?_⟩
  have htried : Tried settings (Buffer.ofText text).contents 0 :=
    fun m hm => absurd hm m.not_lt_zero
  have hnone : (scan settings (Buffer.ofText out).contents).proposals = [] :=
    htried.proposals_eq_nil hname hagree (Buffer.newline_not_mem_contents text)
      (Buffer.newline_not_mem_contents out) hclear 0 ⟨rfl, hrewritten⟩
  exact ⟨hnone, run_of_proposals_eq_nil file hnone⟩

/-- A call inside the body of a lambda that is passed to another call, and a call behind it. -/
def nestedText : Text :=
  "class A \x7b java.util.logging.Logger log;\n log.log(g(() -> \x7b\n".toList ++
    "  log.info(\"a\" +\n   \"b\");\n \x7d));\n log.info(\"id \" + id);\n\x7d\n".toList

def nestedPass : Pass where
  edits :=
    [⟨⟨"A.java".toList⟩, 61, 84, "log.log(Level.INFO, \"ab\", new Object[] \x7b\x7d);".toList,
        .exact "log.info(\"a\" +\n   \"b\");".toList⟩,
      ⟨⟨"A.java".toList⟩, 92, 113, "log.log(Level.INFO, \"id \x7b0\x7d\", id);".toList,
        .exact "log.info(\"id \" + id);".toList⟩]
  results := [.applied ⟨"A.java".toList⟩ 43, .applied ⟨"A.java".toList⟩ 34]
  text :=
    "class A \x7b java.util.logging.Logger log;\n log.log(g(() -> \x7b\n".toList ++
      "  log.log(Level.INFO, \"ab\", new Object[] \x7b\x7d);\n \x7d));\n".toList ++
      " log.log(Level.INFO, \"id \x7b0\x7d\", id);\n\x7d\n".toList

theorem scan_nestedText_after_pass :
    Pass.run .default ⟨"A.java".toList⟩ nestedText = .ok nestedPass ∧
      Agree .default (Buffer.ofText nestedText).contents (Buffer.ofText nestedPass.text).contents ∧
      (∀ proposal ∈ (scan .default (Buffer.ofText nestedText).contents).proposals,
        Clear (Buffer.ofText nestedText).contents proposal) ∧
      (scan .default (Buffer.ofText nestedPass.text).contents).proposals = [] ∧
      Pass.run .default ⟨"A.java".toList⟩ nestedPass.text = .ok ⟨[], [], nestedPass.text⟩ := by
  have hrun : Pass.run .default ⟨"A.java".toList⟩ nestedText = .ok nestedPass := by
    have hbackward : Edit.backward nestedPass.edits = nestedPass.edits.reverse := by
      simp [Edit.backward, nestedPass, List.mergeSort]
    have happly : Edit.applyAll nestedText nestedPass.edits =
        .ok (nestedPass.text, nestedPass.results) := by
      rw [Edit.applyAll, hbackward]
      decide +kernel
    exact run_eq_ok (by decide +kernel) happly
  have hagree : Agree .default (Buffer.ofText nestedText).contents
      (Buffer.ofText nestedPass.text).contents := by
    decide +kernel
  have hclear : ∀ proposal ∈ (scan .default (Buffer.ofText nestedText).contents).proposals,
      Clear (Buffer.ofText nestedText).contents proposal := by
    decide +kernel
  obtain ⟨pass, hpass, hsettled⟩ :=
    scan_after_pass .default ⟨"A.java".toList⟩ (by decide +kernel : nestedText.byteSize < wordSize)
      (by decide)
  obtain rfl := Except.ok.inj (hrun.symm.trans hpass)
  exact ⟨hrun, hagree, hclear, hsettled hagree hclear⟩

/-- A source in which the literals of a message, once they are joined, read like a declaration. -/
def joinedLines (message : Text) : List Text :=
  ["import java.util.logging.Logger;".toList, "class A \x7b".toList, "Logger log;".toList,
    message, "audit.info(\"id:\" + id);".toList]

example :
    ((scan .default (joinedLines "log.info(\"Logger \" + \"audit\");".toList)).proposals.map
        fun proposal => (proposal.statement.first, proposal.replacement)) =
      [(3, "log.log(Level.INFO, \"Logger audit\", new Object[] \x7b\x7d);".toList)] ∧
    ((scan .default (joinedLines
      "log.log(Level.INFO, \"Logger audit\", new Object[] \x7b\x7d);".toList)).proposals.map
        fun proposal => (proposal.statement.first, proposal.replacement)) =
      [(4, "audit.log(Level.INFO, \"id:\x7b0\x7d\", id);".toList)] := by
  decide +kernel

end LogTemplate.Formatter
