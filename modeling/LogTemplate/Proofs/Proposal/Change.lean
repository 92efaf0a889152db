import LogTemplate.Proofs.Message.Placeholder
import LogTemplate.Proofs.Proposal.Coverage

namespace LogTemplate

namespace Template

theorem head?_bodyFrom_ne {operands : List Operand} (n : Nat)
    (h : ∀ text, .literal text ∈ operands → text.head? ≠ some '"') :
    (bodyFrom n operands).head? ≠ some '"' := by
  induction operands generalizing n with
  | nil => simp [bodyFrom]
  | cons operand operands ih =>
      cases operand with
      | group text => simp [bodyFrom, placeholder]
      | bare text => simp [bodyFrom, placeholder]
      | literal text =>
          cases text with
          | nil => exact ih n fun other hother => h other (List.mem_cons_of_mem _ hother)
          | cons c text => exact h (c :: text) List.mem_cons_self

variable {operands : List Operand}

theorem newline_not_mem_bodyFrom (n : Nat) (h : ∀ operand ∈ operands, '\n' ∉ operand.text) :
    '\n' ∉ bodyFrom n operands := by
  have hplaceholder : ∀ k, '\n' ∉ placeholder k := by
    intro k hmem
    simp only [placeholder, List.mem_cons, List.mem_append, List.not_mem_nil, or_false] at hmem
    rcases hmem with hmem | hmem | hmem
    · exact absurd hmem (by decide)
    · exact absurd (isDecimalDigit_of_mem_ofNat hmem) (by decide)
    · exact absurd hmem (by decide)
  induction operands generalizing n with
  | nil => simp [bodyFrom]
  | cons operand operands ih =>
      have hrest := fun k => ih k fun other hother => h other (List.mem_cons_of_mem _ hother)
      cases operand with
      | literal text =>
          have htext : '\n' ∉ text := h (.literal text) List.mem_cons_self
          simpa [bodyFrom, htext] using hrest n
      | group text => simpa [bodyFrom, hplaceholder] using hrest (n + 1)
      | bare text => simpa [bodyFrom, hplaceholder] using hrest (n + 1)

theorem newline_not_mem_intercalate {params : List Text} (h : ∀ param ∈ params, '\n' ∉ param) :
    '\n' ∉ ", ".toList.intercalate params := by
  induction params with
  | nil => simp
  | cons param params ih =>
      have hparam := h param List.mem_cons_self
      have hrest := ih fun other hother => h other (List.mem_cons_of_mem _ hother)
      cases params with
      | nil => simpa using hparam
      | cons next params =>
          rw [List.intercalate_cons_cons]
          simpa [hparam] using hrest

theorem newline_not_mem_argumentList (h : ∀ operand ∈ operands, '\n' ∉ operand.text) :
    '\n' ∉ (ofOperands operands).argumentList := by
  have hparams : ∀ param ∈ (ofOperands operands).params, '\n' ∉ param := by
    intro param hparam
    obtain ⟨operand, hoperand, htext⟩ := List.mem_filterMap.mp hparam
    have hnewline := h operand hoperand
    cases operand with
    | literal text => simp [Operand.param?] at htext
    | group text =>
        obtain rfl := Option.some.inj htext
        exact hnewline
    | bare text =>
        obtain rfl := Option.some.inj htext
        exact hnewline
  rw [argumentList]
  split
  · rename_i single hsingle
    exact hparams single (by simp [hsingle])
  · simpa using newline_not_mem_intercalate hparams

end Template

namespace Formatter

open Delimiter Statement Template

variable {settings : Settings} {lines : List Text} {proposal : Proposal} {extent : Extent}

theorem level_eq_log {layout : Call.Layout} {rest : Text}
    (h : layout.code = layout.owner ++ (".log(".toList ++ rest)) : layout.level = "log".toList := by
  have hlevel : layout.level ++ '(' :: (layout.arguments ++
      ')' :: (layout.gap ++ ';' :: layout.rest)) = "log".toList ++ '(' :: rest := by
    simpa [Call.Layout.code] using h
  exact (append_cons_inj layout.paren_not_mem_level (by decide) hlevel).1

theorem exists_append_comma {message gap u rest : Text} (hgap : Text.AllBlank gap)
    (h : message ++ ')' :: (gap ++ [';']) = u ++ ',' :: rest) :
    ∃ after, message = u ++ ',' :: after := by
  rcases List.append_eq_append_iff.mp h with ⟨w, -, hend⟩ | ⟨w, hmessage, hend⟩
  · have hmem : ',' ∈ ')' :: (gap ++ [';']) := by simp [hend]
    have hnot : ',' ∉ gap := not_mem_of_allBlank (by decide) hgap
    simp [hnot] at hmem
  · cases w with
    | nil => simp at hend
    | cons c w =>
        obtain ⟨rfl, -⟩ := List.cons.inj hend
        exact ⟨w, hmessage⟩

theorem isSome_cutAt_comma {cs body rest : Text}
    (h : splitLiteral '"' '"' cs = some (body, ',' :: rest)) :
    (cutAt ',' ('"' :: cs)).isSome = true := by
  have hstep : Reader.fresh.step '"' = ⟨.inside '"' '"', 0⟩ := rfl
  rw [cutAt_eq_search, Reader.search, if_neg (by decide), hstep, search_inside, h]
  simp [Reader.search, Reader.fresh]

theorem isSome_cutAt_comma_of_parse {budget : Nat} {source rest : Text} {operands : List Operand}
    (h : Operand.parse budget source = .ok operands) (htrim : Text.Trimmed source)
    (hsource : source = '"' :: (bodyFrom 0 operands ++ '"' :: ',' :: rest)) :
    (cutAt ',' source).isSome = true := by
  have hchained : Operand.Chained operands source := by
    rw [← Text.trim_eq_self htrim]
    exact (Operand.parse_eq_ok_iff.mp h).2
  obtain ⟨body, left, others, hoperands, hliteral⟩ := hchained.exists_literal hsource
  rw [hsource]
  have happend := append_of_splitLiteral hliteral
  rw [hoperands, bodyFrom, List.append_assoc] at happend
  have hleft : '"' :: left = bodyFrom 0 others ++ '"' :: ',' :: rest :=
    List.append_cancel_left happend
  -- No literal starts with a quote, so the quote that closes the first one closes the body.
  have hothers : (bodyFrom 0 others).head? ≠ some '"' := by
    apply head?_bodyFrom_ne
    intro text hmem
    exact (Operand.quotable_of_literal_mem_parse h (by simp [hoperands, hmem])).head?_ne
  cases hbody : bodyFrom 0 others with
  | nil =>
      rw [hbody] at hleft
      rw [(List.cons.inj hleft).2] at hliteral
      exact isSome_cutAt_comma hliteral
  | cons c body =>
      rw [hbody] at hleft hothers
      exact absurd (congrArg some (List.cons.inj hleft).1.symm) hothers

theorem exists_trim_quoted (body after : Text) :
    ∃ rest, Text.trim ((' ' :: '"' :: (body ++ ['"'])) ++ ',' :: after) =
      '"' :: (body ++ '"' :: ',' :: rest) := by
  have hopening : Text.Trimmed ('"' :: (body ++ ['"', ','])) := by
    constructor
    · intro c hc
      obtain rfl : '"' = c := by simpa using hc
      decide
    · intro c hc
      obtain rfl : ',' = c := by simpa [List.getLast?_cons] using hc
      decide
  have hblank : Text.AllBlank [' '] := by
    intro c hc
    obtain rfl := List.mem_singleton.mp hc
    decide
  obtain ⟨rest, htrim⟩ := Text.exists_trim_append after hopening
  refine ⟨rest, ?_⟩
  have hshift := Text.trim_blank_append (v := '"' :: (body ++ ['"', ',']) ++ after) hblank
  rw [htrim] at hshift
  simpa using hshift

/-- The message of a call of `log` is not a single literal with a comma behind it, which is what
stands at its place in the replacement. -/
theorem text_ne_replacement (origin : Origin settings lines proposal)
    (hreceiver : isReceiver origin.layout.owner = true)
    (hpasses : origin.layout.call.passesLevel = true) :
    origin.layout.text ≠ proposal.replacement := by
  intro heq
  obtain ⟨hcomma, ⟨-, level, hcut, hhead⟩ | ⟨hlevel, -⟩⟩ :=
    Call.cases_of_headAndMessage origin.parts
  · have harguments : origin.layout.arguments = level ++ ',' :: origin.message :=
      (cutAt_eq_some_iff.mp hcut).1
    have htail : origin.message ++ ')' :: (origin.layout.gap ++ [';']) =
        (' ' :: '"' :: (bodyFrom 0 origin.operands ++ ['"'])) ++
          ',' :: ' ' :: (proposal.template.argumentList ++ ");".toList) := by
      rw [origin.replacement_eq, replacement, hhead] at heq
      simpa [Call.Layout.text, Call.Layout.call, trim_owner hreceiver, harguments,
        origin.template_eq, ofOperands] using heq
    obtain ⟨after, hmessage⟩ := exists_append_comma origin.layout.gap_blank htail
    obtain ⟨rest, htrim⟩ := exists_trim_quoted (bodyFrom 0 origin.operands) after
    rw [← hmessage] at htrim
    have hfound := isSome_cutAt_comma_of_parse origin.parsed (Text.trimmed_trim _) htrim
    rw [← isSome_cutAt_trim (by decide), hcomma] at hfound
    simp at hfound
  · simp [hpasses] at hlevel

theorem newline_not_mem_code (hlines : extent.lines = lines) (h : ∀ line ∈ lines, '\n' ∉ line) :
    '\n' ∉ extent.statement.code := by
  intro hmem
  obtain ⟨_, hline, hmem⟩ := List.mem_flatten.mp hmem
  obtain ⟨line, hblock, rfl⟩ := List.mem_map.mp hline
  have hsource : line ∈ lines := by
    rw [← hlines, Extent.lines]
    rw [Extent.block] at hblock
    rcases List.mem_append.mp hblock with hupper | hfinal
    · simp [hupper]
    · simp [List.mem_singleton.mp hfinal]
  exact h line hsource ((Text.trim_infix line).subset hmem)

theorem newline_not_mem_replacement (origin : Origin settings lines proposal)
    (hcode : '\n' ∉ proposal.statement.code) (hhead : '\n' ∉ origin.head) :
    '\n' ∉ proposal.replacement := by
  have htexts : ∀ operand ∈ origin.operands, '\n' ∉ operand.text :=
    fun operand hoperand hmem => hcode ((origin.text_infix hoperand).subset hmem)
  have hbody := newline_not_mem_bodyFrom 0 htexts
  have harguments := newline_not_mem_argumentList htexts
  have htext : '\n' ∉ (ofOperands origin.operands).text := by simpa [ofOperands] using hbody
  rw [origin.replacement_eq, origin.template_eq, replacement]
  simp [hhead, htext, harguments]

variable {part : Text} (origin : Origin settings lines proposal)
  (hextent : extent.statement = proposal.statement)
  (hjoin : Line.joinTrimmed part =
    (extent.upper.map Text.trim).flatten ++ covered extent.final.trim)

include hextent hjoin

theorem ne_replacement_of_passesLevel (hcode : '\n' ∉ proposal.statement.code)
    (hlength : (Line.split part).length = extent.upper.length + 1)
    (hpasses : origin.layout.call.passesLevel = true) : part ≠ proposal.replacement := by
  rintro rfl
  obtain ⟨hreceiver, hlevel, -⟩ := origin.shape hextent
  obtain ⟨-, ⟨-, level, hcut, hhead⟩ | ⟨hfalse, -⟩⟩ := Call.cases_of_headAndMessage origin.parts
  · have harguments : origin.layout.arguments = level ++ ',' :: origin.message :=
      (cutAt_eq_some_iff.mp hcut).1
    have howner : origin.head =
        origin.layout.owner ++ '.' :: (origin.layout.level ++ '(' :: level) := by
      rw [hhead]
      simp [Call.Layout.call, trim_owner hreceiver]
    have hheadCode : origin.head <+: proposal.statement.code := by
      rw [← origin.code_eq, howner, Call.Layout.code, harguments]
      exact ⟨',' :: (origin.message ++ ')' :: (origin.layout.gap ++ ';' :: origin.layout.rest)),
        by simp⟩
    have hnewline := newline_not_mem_replacement origin hcode fun hmem =>
      hcode (hheadCode.subset hmem)
    have hupper : extent.upper = [] := by
      simpa [Line.split_of_newline_not_mem hnewline] using hlength
    have hfinal : extent.final.trim = origin.layout.code := by
      rw [origin.code_eq, ← hextent]
      simp [Extent.statement, Extent.block, hupper]
    have htrimmed : Text.Trimmed proposal.replacement := by
      rw [origin.replacement_eq, replacement, howner]
      have h := trimmed_append_semicolon ('.' :: (origin.layout.level ++ '(' :: level) ++
        ", ".toList ++ proposal.template.text ++ ", ".toList ++ proposal.template.argumentList ++
        [')']) hreceiver
      simpa using h
    rw [Line.joinTrimmed_of_newline_not_mem hnewline, Text.trim_eq_self htrimmed, hupper, hfinal,
      covered_code origin.layout hreceiver hlevel] at hjoin
    exact text_ne_replacement origin hreceiver hpasses hjoin.symm
  · simp [hpasses] at hfalse

theorem ne_replacement_of_not_passesLevel (hpasses : origin.layout.call.passesLevel = false) :
    part ≠ proposal.replacement := by
  rintro rfl
  obtain ⟨hreceiver, -, -⟩ := origin.shape hextent
  obtain ⟨-, ⟨htrue, -⟩ | ⟨-, -, hhead⟩⟩ := Call.cases_of_headAndMessage origin.parts
  · simp [hpasses] at htrue
  · have hlog : (".log(".toList.all fun c => !isBlank c) = true := by decide
    have hopening : ∀ c ∈ origin.layout.owner ++ ".log(".toList, isBlank c = false := by
      intro c hc
      rcases List.mem_append.mp hc with hc | hc
      · exact isBlank_eq_false_of_mem_owner hreceiver c hc
      · simpa using List.all_eq_true.mp hlog c hc
    obtain ⟨tail, htail⟩ : ∃ tail, proposal.replacement =
        (origin.layout.owner ++ ".log(".toList) ++ tail := by
      rw [origin.replacement_eq, replacement, hhead]
      simp only [Call.Layout.call, trim_owner hreceiver, List.append_assoc]
      exact ⟨_, rfl⟩
    obtain ⟨after, hafter⟩ := Line.exists_joinTrimmed_append tail hopening
    obtain ⟨rest, hrest⟩ := exists_covered_append extent.final.trim
    have hcode : origin.layout.code =
        origin.layout.owner ++ (".log(".toList ++ (after ++ rest)) := by
      rw [htail, hafter] at hjoin
      rw [origin.code_eq, ← hextent, Extent.statement, Extent.block, List.map_append,
        List.flatten_append, List.map_singleton, List.flatten_singleton, hrest, ← List.append_assoc,
        ← hjoin]
      simp only [List.append_assoc]
    have hlevel : origin.layout.call.level = "log".toList := level_eq_log hcode
    rw [Call.passesLevel, hlevel] at hpasses
    exact absurd hpasses (by decide)

end Formatter

end LogTemplate
