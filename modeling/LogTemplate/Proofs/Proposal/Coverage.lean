import LogTemplate.Proofs.Proposal.Span

/-!
Whether the span of a proposal is the call. It is for every statement on one line. For a statement
on several lines it is exactly when the part of the call on the last line, read by itself, has its
first semicolon at top level at its end; a literal or a group that is open across the line break
can prevent that.
-/

namespace LogTemplate.Formatter

open Delimiter Statement

variable {settings : Settings} {lines : List Text} {proposal : Proposal} {trigger : Nat}

theorem cutAt_semicolon_code (layout : Call.Layout) (hreceiver : isReceiver layout.owner = true)
    (hlevel : isLogLevel layout.level = true) :
    cutAt ';' layout.code = some (layout.text.dropLast, layout.rest) := by
  have hblank : Text.AllBlank [] := fun _ hc => absurd hc List.not_mem_nil
  obtain ⟨hnone, hrun⟩ := layout.reads_to_semicolon hblank hreceiver hlevel
  rw [List.nil_append] at hnone hrun
  have htext : layout.text = (layout.owner ++ '.' :: (layout.level ++ '(' ::
      (layout.arguments ++ ')' :: layout.gap))) ++ [';'] := by
    simp [Call.Layout.text]
  rw [htext, List.dropLast_concat, cutAt_eq_some_iff]
  refine ⟨?_, hnone, hrun⟩
  rw [← layout.text_append_rest, htext]
  simp

theorem text_eq_dropLast_append (layout : Call.Layout) :
    layout.text = layout.text.dropLast ++ [';'] := by
  have hne : layout.text ≠ [] := by simp [Call.Layout.text]
  have hlast : layout.text.getLast hne = ';' := by simp [Call.Layout.text]
  rw [← hlast, List.dropLast_append_getLast]

theorem covered_code (layout : Call.Layout) (hreceiver : isReceiver layout.owner = true)
    (hlevel : isLogLevel layout.level = true) : covered layout.code = layout.text := by
  rw [covered_of_cutAt (cutAt_semicolon_code layout hreceiver hlevel), ← text_eq_dropLast_append]

theorem trimmed_append_semicolon {owner : Text} (middle : Text) (h : isReceiver owner = true) :
    Text.Trimmed (owner ++ (middle ++ [';'])) := by
  constructor
  · intro c hc
    cases owner with
    | nil => simp [isReceiver] at h
    | cons d owner =>
        obtain rfl : d = c := by simpa using hc
        apply isBlank_eq_false_of_continuesReceiver
        exact continuesReceiver_of_isReceiver h d List.mem_cons_self
  · intro c hc
    obtain rfl : ';' = c := by simpa [← List.append_assoc] using hc
    decide

theorem trimmed_text (layout : Call.Layout) (h : isReceiver layout.owner = true) :
    Text.Trimmed layout.text := by
  have htrimmed := trimmed_append_semicolon
    ('.' :: (layout.level ++ '(' :: (layout.arguments ++ ')' :: layout.gap))) h
  simpa [Call.Layout.text] using htrimmed

/-- The span of a proposal for a statement on one line holds the call, up to and with its
semicolon, and blanks before it. The semicolon is found on the line. -/
theorem slice_of_one_line (h : propose settings lines trigger = .ok (.proposed proposal))
    (hline : proposal.statement.first = proposal.statement.last) :
    ∃ (origin : Origin settings lines proposal) (slice : Text),
      proposal.span.start.line = proposal.statement.first ∧
      proposal.span.stop.line = proposal.statement.first ∧
      (lineAt lines proposal.statement.first).slice? proposal.span.start.column
        proposal.span.stop.column = some slice ∧
      slice.trimStart = origin.layout.text ∧
      (cutAt ';' ((lineAt lines proposal.statement.first).splitFrom
        proposal.span.start.column).2).isSome = true := by
  obtain ⟨htrigger, hoffer⟩ := offer_of_propose h
  obtain ⟨extent, hextent, hstatement, ⟨origin⟩⟩ := exists_extent_of_offer htrigger hoffer
  obtain ⟨hreceiver, hlevel, -⟩ := origin.shape hstatement
  have hupper : extent.upper = [] := by
    rw [extent.upper_eq_nil_iff, hstatement]
    exact hline
  have hcode : extent.final.trim = origin.layout.code := by
    rw [origin.code_eq, ← hstatement]
    simp [Extent.statement, Extent.block, hupper]
  obtain ⟨indent, blanks, after, hindent, hblanks, hfinal, hspan⟩ :=
    exists_spanOf_of_upper_eq_nil hupper (origin.final_trim_ne_nil hstatement)
  rw [hextent.lines_eq, hstatement, ← origin.span_eq] at hspan
  have hfirst : extent.before.length = proposal.statement.first := by rw [← hstatement]; rfl
  have hlineAt : lineAt lines proposal.statement.first = extent.final := by
    rw [hline, ← hstatement, ← hextent.lines_eq, lineAt_last]
  have hcovered : covered extent.final.trim = origin.layout.text := by
    rw [hcode, covered_code origin.layout hreceiver hlevel]
  rw [hcovered] at hfinal hspan
  refine ⟨origin, blanks ++ origin.layout.text, ?_, ?_, ?_, ?_, ?_⟩
  · rw [hspan, hfirst]
  · rw [hspan, hfirst]
  · rw [hlineAt, hspan, Text.slice?_eq_some_iff]
    exact ⟨indent, after, by rw [hfinal, List.append_assoc], rfl, rfl⟩
  · rw [Text.trimStart_blank_append hblanks]
    exact Text.trimStart_eq_self (trimmed_text origin.layout hreceiver).head
  · have hbody : (blanks ++ (origin.layout.text ++ after)).trim = origin.layout.code := by
      rw [← hcode, hfinal, Text.trim_blank_append hindent]
    rw [hlineAt, hspan, hfinal, Text.splitFrom_byteSize_append, isSome_cutAt_trim (by decide),
      hbody, cutAt_semicolon_code origin.layout hreceiver hlevel]
    rfl

/-- A call with a semicolon in its literal and a second statement behind it. -/
def sharedLines : List Text :=
  ["class A \x7b java.util.logging.Logger log;".toList, "\t\u00a0log.info(\"a;\" + x); f();".toList]

def sharedProposal : Proposal where
  span := ⟨⟨1, 1⟩, ⟨1, 22⟩⟩
  replacement := "log.log(Level.INFO, \"a;\x7b0\x7d\", x);".toList
  statement := ⟨"log.info(\"a;\" + x); f();".toList, 1, 1⟩
  template := ⟨"\"a;\x7b0\x7d\"".toList, ["x".toList]⟩

theorem slice_sharedProposal :
    propose .default sharedLines 1 = .ok (.proposed sharedProposal) ∧
      ∃ (origin : Origin .default sharedLines sharedProposal) (slice : Text),
        (lineAt sharedLines 1).slice? 1 22 = some slice ∧
          slice.trimStart = origin.layout.text := by
  have hpropose : propose .default sharedLines 1 = .ok (.proposed sharedProposal) := by
    decide +kernel
  obtain ⟨origin, slice, -, -, hslice, htext, -⟩ := slice_of_one_line hpropose rfl
  exact ⟨hpropose, origin, slice, hslice, htext⟩

def codeAbove (lines : List Text) (statement : Statement) : Text :=
  (((lines.drop statement.first).take (statement.last - statement.first)).map Text.trim).flatten

/-- The last line of a call, read by itself, ends where the call ends: no semicolon of `tail` is at
top level, and the one behind it is, unless nothing follows the call. -/
def EndsAlone (tail rest : Text) : Prop :=
  cutAt ';' tail = none ∧ (Reader.fresh.run tail = Reader.fresh ∨ rest = [])

theorem cutAt_append_of_some {target : Char} {u before rest : Text} (v : Text)
    (h : cutAt target u = some (before, rest)) :
    cutAt target (u ++ v) = some (before, rest ++ v) := by
  rw [cutAt_eq_some_iff] at h ⊢
  obtain ⟨rfl, hnone, hrun⟩ := h
  exact ⟨by simp, hnone, hrun⟩

theorem covered_append_eq_iff {tail rest : Text} :
    covered (tail ++ ';' :: rest) = tail ++ [';'] ↔ EndsAlone tail rest := by
  cases htail : cutAt ';' tail with
  | some parts =>
      obtain ⟨before, after⟩ := parts
      have hsplit := (cutAt_eq_some_iff.mp htail).1
      rw [covered_of_cutAt (cutAt_append_of_some (';' :: rest) htail), EndsAlone, htail, hsplit]
      simp
  | none =>
      rw [EndsAlone, htail]
      by_cases hrun : Reader.fresh.run tail = Reader.fresh
      · have hcut : cutAt ';' (tail ++ ';' :: rest) = some (tail, rest) :=
          cutAt_eq_some_iff.mpr ⟨rfl, cutAt_eq_none_iff.mp htail, hrun⟩
        simp [covered_of_cutAt hcut, hrun]
      · have hlast : cutAt ';' (tail ++ [';']) = none := by
          rw [cutAt_eq_none_iff, search_append_of_none _ (cutAt_eq_none_iff.mp htail),
            Reader.search, if_neg fun hfresh => hrun hfresh.1]
          rfl
        cases hcut : cutAt ';' (tail ++ ';' :: rest) with
        | none => simp [covered, hcut, hrun]
        | some parts =>
            obtain ⟨before, after⟩ := parts
            obtain ⟨-, -, hfresh⟩ := cutAt_eq_some_iff.mp hcut
            have hne : before ≠ tail := by
              rintro rfl
              exact hrun hfresh
            rw [covered_of_cutAt hcut]
            constructor
            · intro heq
              exact absurd (List.append_cancel_right heq) hne
            · rintro ⟨-, hfresh | rfl⟩
              · exact absurd hfresh hrun
              · simp [hlast] at hcut

theorem exists_tail {extent : Extent} {layout : Call.Layout}
    (hcode : layout.code = extent.statement.code) :
    ∃ tail, layout.text = (extent.upper.map Text.trim).flatten ++ (tail ++ [';']) ∧
      extent.final.trim = tail ++ ';' :: layout.rest := by
  have hupper : ';' ∉ (extent.upper.map Text.trim).flatten := by
    intro hmem
    obtain ⟨_, htrimmed, hmem⟩ := List.mem_flatten.mp hmem
    obtain ⟨line, hline, rfl⟩ := List.mem_map.mp htrimmed
    rw [Text.mem_trim_iff (by decide)] at hmem
    exact extent.semicolon_not_mem line hline hmem
  have hwhole : layout.text.dropLast ++ ';' :: layout.rest =
      (extent.upper.map Text.trim).flatten ++ extent.final.trim := by
    have happend := layout.text_append_rest
    rw [text_eq_dropLast_append, hcode] at happend
    simpa [Extent.statement, Extent.block] using happend
  rcases List.append_eq_append_iff.mp hwhole with ⟨w, hw, hrest⟩ | ⟨tail, htext, hfinal⟩
  · cases w with
    | nil => exact ⟨[], by rw [text_eq_dropLast_append, hw]; simp, by simpa using hrest.symm⟩
    | cons c w =>
        obtain ⟨rfl, -⟩ := List.cons.inj hrest
        exact absurd (by simp [hw]) hupper
  · exact ⟨tail, by rw [text_eq_dropLast_append, htext, List.append_assoc], hfinal⟩

/-- The span of a statement holds exactly the call if and only if the last line of the call ends
alone. Where no literal is open at the line break, this only takes that no semicolon at top level
comes before the last one. -/
theorem joinTrimmed_slice_eq_text_iff {text : Text} (hsize : text.byteSize < wordSize)
    (h : propose settings (Buffer.ofText text).contents trigger = .ok (.proposed proposal)) :
    ∃ (origin : Origin settings (Buffer.ofText text).contents proposal) (slice tail : Text),
      (Buffer.ofText text).slice? proposal.span = .ok (some slice) ∧
      origin.layout.text =
        codeAbove (Buffer.ofText text).contents proposal.statement ++ (tail ++ [';']) ∧
      cutAt ';' proposal.statement.code =
        some (codeAbove (Buffer.ofText text).contents proposal.statement ++ tail,
          origin.layout.rest) ∧
      (Line.joinTrimmed slice = origin.layout.text ↔ EndsAlone tail origin.layout.rest) ∧
      ((Reader.fresh.run (codeAbove (Buffer.ofText text).contents proposal.statement)).mode =
        .outside → (EndsAlone tail origin.layout.rest ↔ cutAt ';' tail = none)) := by
  obtain ⟨htrigger, hoffer⟩ := offer_of_propose h
  obtain ⟨extent, hextent, hstatement, ⟨origin⟩⟩ := exists_extent_of_offer htrigger hoffer
  obtain ⟨hreceiver, hlevel, -⟩ := origin.shape hstatement
  obtain ⟨tail, htext, hfinal⟩ := exists_tail (origin.code_eq.trans (by rw [hstatement]))
  obtain ⟨slice, hholds, -, hjoin⟩ :=
    exists_holds_spanOf hextent.lines_eq (origin.final_trim_ne_nil hstatement)
  rw [hextent.lines_eq, hstatement, ← origin.span_eq] at hholds
  have hslice := hholds.slice?_eq_ok (by rwa [Buffer.text_ofText])
  have habove : codeAbove (Buffer.ofText text).contents proposal.statement =
      (extent.upper.map Text.trim).flatten := by
    rw [codeAbove, ← hstatement, ← hextent.lines_eq, extent.take_drop_lines]
  have hcut := cutAt_semicolon_code origin.layout hreceiver hlevel
  rw [origin.code_eq, htext, ← List.append_assoc, List.dropLast_concat] at hcut
  rw [habove]
  refine ⟨origin, slice, tail, hslice, htext, hcut, ?_, ?_⟩
  · rw [hjoin, htext, hfinal, List.append_cancel_left_eq, covered_append_eq_iff]
  · intro houtside
    -- The reader that starts on the last line has no more groups open than the one that has read
    -- the lines above, and that one has none open at the semicolon.
    have hwithin : Reader.Within Reader.fresh
        (Reader.fresh.run (extent.upper.map Text.trim).flatten) :=
      ⟨houtside.symm, Nat.zero_le _⟩
    have hrun := (cutAt_eq_some_iff.mp hcut).2.2
    rw [Reader.run_append] at hrun
    have hfresh : Reader.fresh.run tail = Reader.fresh := by
      have htail := hwithin.run tail
      rw [hrun] at htail
      exact htail.eq_fresh
    simp [EndsAlone, hfresh]

/-- A call whose last line holds the body of a lambda. -/
def lambdaText : Text :=
  "class A \x7b java.util.logging.Logger log;\n".toList ++
    " log.info(\"a\" + (f(() ->\n \x7b g(); \x7d)));".toList

/-- The proposal for it. -/
def lambdaProposal : Proposal where
  span := ⟨⟨1, 1⟩, ⟨2, 7⟩⟩
  replacement := "log.log(Level.INFO, \"a\x7b0\x7d\", (f(() ->\x7b g(); \x7d)));".toList
  statement := ⟨"log.info(\"a\" + (f(() ->\x7b g(); \x7d)));".toList, 1, 2⟩
  template := ⟨"\"a\x7b0\x7d\"".toList, ["(f(() ->\x7b g(); \x7d))".toList]⟩

theorem lambdaProposal_not_covered :
    propose .default (Buffer.ofText lambdaText).contents 1 = .ok (.proposed lambdaProposal) ∧
      lambdaProposal.statement.first < lambdaProposal.statement.last ∧
      ∃ (origin : Origin .default (Buffer.ofText lambdaText).contents lambdaProposal)
        (slice : Text),
        (Buffer.ofText lambdaText).slice? lambdaProposal.span = .ok (some slice) ∧
          Line.joinTrimmed slice ≠ origin.layout.text := by
  have hpropose : propose .default (Buffer.ofText lambdaText).contents 1 =
      .ok (.proposed lambdaProposal) := by
    decide +kernel
  obtain ⟨origin, slice, tail, hslice, -, hcut, hiff, -⟩ :=
    joinTrimmed_slice_eq_text_iff (by decide +kernel) hpropose
  refine ⟨hpropose, by decide, origin, slice, hslice, ?_⟩
  rw [Ne, hiff]
  rintro ⟨hnone, -⟩
  have hcode : cutAt ';' lambdaProposal.statement.code =
      some ("log.info(\"a\" + (f(() ->".toList ++ "\x7b g(); \x7d)))".toList, []) := by
    decide +kernel
  have habove : codeAbove (Buffer.ofText lambdaText).contents lambdaProposal.statement =
      "log.info(\"a\" + (f(() ->".toList := by
    decide +kernel
  rw [hcode, habove] at hcut
  have htail := List.append_cancel_left (Prod.mk.inj (Option.some.inj hcut)).1
  rw [← htail] at hnone
  exact absurd hnone (by decide +kernel)

end LogTemplate.Formatter
