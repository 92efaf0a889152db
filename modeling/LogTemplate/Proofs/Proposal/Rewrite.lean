import LogTemplate.Proofs.Edit.Weave
import LogTemplate.Proofs.Proposal.Scan
import LogTemplate.Proofs.Proposal.Verdict
import Mathlib.Data.List.Forall2

namespace LogTemplate

theorem Line.Chain.of_cons {line : Line} {lines : List Line} (h : Chain (line :: lines))
    (hlines : lines ≠ []) : line.Ended ∧ Chain lines := by
  cases h with
  | last _ => exact absurd rfl hlines
  | cons hended hchain => exact ⟨hended, hchain⟩

theorem Line.Chain.replace {front upper below : List Line} {final line : Line}
    (h : Chain (front ++ (upper ++ final :: below))) (hending : line.ending = final.ending)
    (hnewline : '\n' ∉ line.content)
    (hreturn : line.content.getLast? = some '\r' → final.content.getLast? = some '\r') :
    Chain (front ++ line :: below) := by
  induction front with
  | cons other front ih =>
      obtain ⟨hended, hchain⟩ := h.of_cons (by simp)
      exact .cons hended (ih hchain)
  | nil =>
      induction upper with
      | cons other upper ih =>
          obtain ⟨-, hchain⟩ := h.of_cons (by simp)
          exact ih hchain
      | nil =>
          obtain ⟨content, ending⟩ := line
          cases h with
          | last _ =>
              subst hending
              exact .last hnewline
          | cons hended hchain =>
              refine .cons ⟨hnewline, hending ▸ hended.ending_ne, ?_⟩ hchain
              intro hmark hlast
              exact hended.return_not_last (hending ▸ hmark) (hreturn hlast)

theorem Edit.forward_eq_self {edits : List Edit}
    (h : edits.Pairwise fun a b => a.start < b.start) : forward edits = edits := by
  have hplaced : edits.zipIdx.Pairwise fun a b => precedes a b = true := by
    rw [← List.zipIdx_map_fst 0 edits, List.pairwise_map] at h
    exact h.imp fun hlt => precedes_iff.mpr (.inl hlt)
  rw [forward, List.mergeSort_of_pairwise hplaced, List.zipIdx_map_fst]

theorem Edit.of_ofProposal {file : Path} {buffer : Buffer} {proposal : Proposal} {edit : Edit}
    (h : Edit.ofProposal file buffer proposal = .ok edit) :
    edit.file = file ∧ buffer.offset? proposal.span.start = .ok (some edit.start) ∧
      buffer.offset? proposal.span.stop = .ok (some edit.stop) ∧
      edit.newText = proposal.replacement := by
  obtain ⟨start, stop, found, hstart, hstop, -, rfl⟩ := pin_eq_ok_iff.mp h
  exact ⟨rfl, hstart, hstop, rfl⟩

namespace Formatter

open Statement

variable {settings : Settings} {text : Text} {proposal : Proposal} {edit : Edit} {trigger : Nat}

/-- Where the edit of a proposal lies in a text: the lines above its statement, those of the
statement, and on the last of them the blanks before what is covered and the rest behind it. -/
structure Site (text : Text) (proposal : Proposal) (edit : Edit) where
  above : List Line
  upper : List Line
  final : Line
  below : List Line
  indent : Text
  blanks : Text
  after : Text
  lines_eq : (Buffer.ofText text).lines = above ++ (upper ++ final :: below)
  first_eq : proposal.statement.first = above.length
  last_eq : proposal.statement.last = above.length + upper.length
  code_eq : proposal.statement.code =
    (((upper.map Line.content) ++ [final.content]).map Text.trim).flatten
  indent_blank : Text.AllBlank indent
  newline_not_mem_indent : '\n' ∉ indent
  blanks_blank : Text.AllBlank blanks
  final_eq : final.content = blanks ++ (covered final.content.trim ++ after)
  start_eq : edit.start = Text.byteSize (above.flatMap Line.text ++ indent)
  stop_eq : edit.stop =
    Text.byteSize ((above ++ upper).flatMap Line.text ++ (blanks ++ covered final.content.trim))
  exists_indent : ∃ rest, (upper ++ final :: below).flatMap Line.text = indent ++ rest
  newText_eq : edit.newText = proposal.replacement

theorem Origin.getLast?_replacement {lines : List Text} (origin : Origin settings lines proposal) :
    proposal.replacement.getLast? = some ';' := by
  rw [origin.replacement_eq, replacement, List.getLast?_append]
  rfl

theorem Origin.newline_not_mem_head {lines : List Text} (origin : Origin settings lines proposal)
    (htype : '\n' ∉ settings.levelType) (hcode : '\n' ∉ proposal.statement.code) :
    '\n' ∉ origin.head := by
  rw [← origin.code_eq, Call.Layout.code] at hcode
  simp only [List.mem_append, List.mem_cons, not_or] at hcode
  obtain ⟨howner, -, hlevel, -, harguments, -⟩ := hcode
  have hreceiver : '\n' ∉ origin.layout.call.receiver :=
    fun hmem => howner ((Text.trim_infix _).subset hmem)
  obtain ⟨-, ⟨-, first, hcut, hhead⟩ | ⟨-, -, hhead⟩⟩ := Call.cases_of_headAndMessage origin.parts
  · have hfirst : '\n' ∉ first := by
      intro hmem
      apply harguments
      rw [show origin.layout.arguments = first ++ ',' :: origin.message from
        (Delimiter.cutAt_eq_some_iff.mp hcut).1]
      exact List.mem_append_left _ hmem
    have hlevel' : '\n' ∉ origin.layout.call.level := hlevel
    rw [hhead]
    simp [hreceiver, hlevel', hfirst]
  · have hcapital : '\n' ∉ origin.layout.call.level.map toCapital := by
      intro hmem
      obtain ⟨c, hc, heq⟩ := List.mem_map.mp hmem
      obtain rfl := eq_of_toCapital_eq heq (by decide)
      exact hlevel hc
    rw [hhead]
    simp only [List.mem_append, List.mem_cons, not_or]
    exact ⟨⟨⟨hreceiver, by decide⟩, htype⟩, by decide, hcapital⟩

theorem exists_spanOf {extent : Extent} (hfinal : extent.final.trim ≠ []) :
    ∃ indent rest blanks after, Text.AllBlank indent ∧ Text.AllBlank blanks ∧
      extent.block.head? = some (indent ++ rest) ∧
      extent.final = blanks ++ (covered extent.final.trim ++ after) ∧
      spanOf extent.lines extent.statement =
        { start := ⟨extent.before.length, Text.byteSize indent⟩
          stop := ⟨extent.before.length + extent.upper.length,
            Text.byteSize (blanks ++ covered extent.final.trim)⟩ } := by
  cases hupper : extent.upper with
  | nil =>
      obtain ⟨indent, blanks, after, hindent, hblanks, hline, hspan⟩ :=
        exists_spanOf_of_upper_eq_nil hupper hfinal
      refine ⟨indent, blanks ++ (covered extent.final.trim ++ after), indent ++ blanks, after,
        hindent, ?_, ?_, ?_, ?_⟩
      · intro c hc
        rcases List.mem_append.mp hc with hc | hc
        · exact hindent c hc
        · exact hblanks c hc
      · rw [Extent.block, hupper, ← hline]
        rfl
      · rw [List.append_assoc, ← hline]
      · rw [hspan, List.append_assoc]
        rfl
  | cons line middle =>
      obtain ⟨indent, body, blanks, after, hindent, hblanks, hfirst, hline, hspan⟩ :=
        exists_spanOf_of_upper_eq_cons hupper hfinal
      refine ⟨indent, body, blanks, after, hindent, hblanks, ?_, hline, hupper ▸ hspan⟩
      rw [Extent.block, hupper, ← hfirst]
      rfl

theorem Offered.nonempty_site {file : Path} (hsize : text.byteSize < wordSize)
    (h : Offered settings (Buffer.ofText text).contents trigger proposal)
    (hedit : Edit.ofProposal file (.ofText text) proposal = .ok edit) :
    Nonempty (Site text proposal edit) := by
  obtain ⟨extent, hextent, hstatement, ⟨origin⟩⟩ := exists_extent_of_offer h.lt_length h.offer_eq
  obtain ⟨indent, rest, blanks, after, hindent, hblanks, hhead, hline, hspanOf⟩ :=
    exists_spanOf (origin.final_trim_ne_nil hstatement)
  obtain ⟨above, upper, final, below, hlines, habove, hupper, hcontent⟩ :=
    exists_lines_eq_append hextent.lines_eq
  obtain ⟨first, more, hmore, hfirstLine⟩ :
      ∃ first more, upper ++ final :: below = first :: more ∧ first.content = indent ++ rest := by
    rw [Extent.block, ← hupper, ← hcontent] at hhead
    cases upper with
    | nil => exact ⟨final, below, rfl, by simpa using hhead⟩
    | cons line upper => exact ⟨line, upper ++ final :: below, rfl, by simpa using hhead⟩
  have hlength : extent.before.length = above.length := by rw [← habove, List.length_map]
  have hlength' : extent.upper.length = upper.length := by rw [← hupper, List.length_map]
  have hnewline : '\n' ∉ first.content := by
    apply (Line.chain_split text).newline_not_mem
    rw [show Line.split text = above ++ first :: more from hmore ▸ hlines]
    simp
  rw [← hcontent] at hline
  have hspan : proposal.span = ⟨⟨above.length, Text.byteSize indent⟩,
      ⟨(above ++ upper).length, Text.byteSize (blanks ++ covered final.content.trim)⟩⟩ := by
    rw [origin.span_eq, ← hstatement, ← hextent.lines_eq, hspanOf, hlength, hlength', hcontent,
      List.length_append]
  have hbuffer : (Buffer.ofText text).text.byteSize < wordSize := by rwa [Buffer.text_ofText]
  have hstartPlace : (Buffer.ofText text).Before ⟨above.length, Text.byteSize indent⟩ _ :=
    .intro (hlines.trans (congrArg _ hmore)) hfirstLine
  have hstopPlace : (Buffer.ofText text).Before
      ⟨(above ++ upper).length, Text.byteSize (blanks ++ covered final.content.trim)⟩ _ :=
    .intro (hlines.trans (List.append_assoc _ _ _).symm)
      (hline.trans (List.append_assoc _ _ _).symm)
  obtain ⟨-, hstart, hstop, hnewText⟩ := Edit.of_ofProposal hedit
  rw [hspan, Buffer.offset?_eq_ok hstartPlace hbuffer, Except.ok.injEq, Option.some.injEq] at hstart
  rw [hspan, Buffer.offset?_eq_ok hstopPlace hbuffer, Except.ok.injEq, Option.some.injEq] at hstop
  refine ⟨⟨above, upper, final, below, indent, blanks, after, hlines, ?_, ?_, ?_, hindent, ?_,
    hblanks, hline, hstart.symm, hstop.symm, ?_, hnewText⟩⟩
  · rw [← hstatement, ← hlength]
    rfl
  · rw [← hstatement, ← hlength, ← hlength']
    rfl
  · rw [← hstatement, hupper, hcontent]
    rfl
  · rw [hfirstLine] at hnewline
    exact fun hmem => hnewline (List.mem_append_left _ hmem)
  · refine ⟨rest ++ (first.ending.text ++ more.flatMap Line.text), ?_⟩
    rw [hmore, List.flatMap_cons, Line.text, hfirstLine]
    simp

/-- Lines with proposals put in their places. The lines count from `n`; those before the first
proposal are kept, and one line comes in for the block of its statement. -/
inductive Rewritten : Nat → List Text → List Proposal → List Text → Prop where
  | nil (n : Nat) (lines : List Text) : Rewritten n lines [] lines
  | cons {n : Nat} {kept upper below below' : List Text} {final indent blanks after : Text}
      {proposal : Proposal} {proposals : List Proposal}
      (first_eq : proposal.statement.first = n + kept.length)
      (last_eq : proposal.statement.last = n + kept.length + upper.length)
      (code_eq : proposal.statement.code = ((upper ++ [final]).map Text.trim).flatten)
      (indent_blank : Text.AllBlank indent) (blanks_blank : Text.AllBlank blanks)
      (final_eq : final = blanks ++ (covered final.trim ++ after))
      (rest : Rewritten (proposal.statement.last + 1) below proposals below') :
      Rewritten n (kept ++ (upper ++ final :: below)) (proposal :: proposals)
        (kept ++ (indent ++ (proposal.replacement ++ after)) :: below')

section Rewritten

variable {proposals : List Proposal} {n : Nat}

theorem Rewritten.eq_of_nil {todo todo' : List Text} (h : Rewritten n todo [] todo') :
    todo' = todo := by
  cases h
  rfl

theorem Rewritten.exists_newLine {todo todo' : List Text}
    (h : Rewritten n todo (proposal :: proposals) todo') (hfirst : proposal.statement.first = n) :
    ∃ indent after below', Text.AllBlank indent ∧
      todo' = (indent ++ (proposal.replacement ++ after)) :: below' ∧
      Rewritten (proposal.statement.last + 1)
        (todo.drop (proposal.statement.last + 1 - n)) proposals below' := by
  cases h with
  | @cons _ kept upper below below' final indent _ after _ _ hkept hlast _ hindent _ _ hrest =>
      obtain rfl : kept = [] := List.length_eq_zero_iff.mp (by omega)
      refine ⟨indent, after, below', hindent, rfl, ?_⟩
      have hcount : proposal.statement.last + 1 - n = (upper ++ [final]).length := by
        rw [hlast]
        simp only [List.length_append, List.length_cons, List.length_nil]
        omega
      rw [List.nil_append, List.append_cons, hcount, List.drop_left]
      exact hrest

theorem Rewritten.exists_cons {line : Text} {todo todo' : List Text}
    (h : Rewritten n (line :: todo) proposals todo')
    (hlt : ∀ proposal ∈ proposals, n < proposal.statement.first) :
    ∃ rest, todo' = line :: rest ∧ Rewritten (n + 1) todo proposals rest := by
  generalize hsource : line :: todo = source at h
  cases h with
  | nil => exact ⟨todo, hsource.symm, .nil _ _⟩
  | @cons _ kept _ _ _ _ _ _ _ _ _ hfirst hlast hcode hindent hblanks hfinal hrest =>
      cases kept with
      | nil =>
          have hless := hlt _ List.mem_cons_self
          rw [hfirst] at hless
          exact absurd hless (lt_irrefl _)
      | cons other kept =>
          obtain ⟨rfl, rfl⟩ := List.cons.inj hsource
          refine ⟨_, rfl, .cons ?_ ?_ hcode hindent hblanks hfinal hrest⟩
          · rw [hfirst, List.length_cons]
            omega
          · rw [hlast, List.length_cons]
            omega

theorem Rewritten.exists_append {front todo todo' : List Text}
    (h : Rewritten n (front ++ todo) proposals todo')
    (hle : ∀ proposal ∈ proposals, n + front.length ≤ proposal.statement.first) :
    ∃ rest, todo' = front ++ rest ∧ Rewritten (n + front.length) todo proposals rest := by
  induction front generalizing n todo' with
  | nil => exact ⟨todo', rfl, h⟩
  | cons line front ih =>
      simp only [List.length_cons] at hle ⊢
      obtain ⟨rest, rfl, hrest⟩ := h.exists_cons fun proposal hmem => by
        have hfirst := hle proposal hmem
        omega
      obtain ⟨rest', rfl, hrest'⟩ := ih hrest fun proposal hmem => by
        have hfirst := hle proposal hmem
        omega
      refine ⟨rest', rfl, ?_⟩
      rwa [Nat.add_assoc, Nat.add_comm 1] at hrest'

end Rewritten

namespace Site

variable (site : Site text proposal edit)

def newLine : Line where
  content := site.indent ++ (proposal.replacement ++ site.after)
  ending := site.final.ending

theorem text_eq : text = site.above.flatMap Line.text ++
    (site.upper ++ site.final :: site.below).flatMap Line.text := by
  rw [← List.flatMap_append, ← site.lines_eq]
  exact (Buffer.text_ofText text).symm

theorem weave?_cons {edits : List Edit} {rest : Text}
    (hrest : Edit.weave? text (Text.byteSize ((site.above ++ (site.upper ++ [site.final])).flatMap
      Line.text)) edits = some rest) :
    Edit.weave? text (Text.byteSize (site.above.flatMap Line.text)) (edit :: edits) =
      some (site.newLine.text ++ rest) := by
  obtain ⟨tail, htail⟩ := site.exists_indent
  have hindent : text.slice? (Text.byteSize (site.above.flatMap Line.text)) edit.start =
      some site.indent :=
    Text.slice?_eq_some_iff.mpr ⟨site.above.flatMap Line.text, tail,
      by rw [← htail, ← site.text_eq], rfl, site.start_eq.symm⟩
  have hafter : text.slice? edit.stop (Text.byteSize ((site.above ++ (site.upper ++
      [site.final])).flatMap Line.text)) = some (site.after ++ site.final.ending.text) := by
    have hfinal : site.final.text = (site.blanks ++ covered site.final.content.trim) ++
        (site.after ++ site.final.ending.text) := by
      rw [Line.text]
      conv_lhs => rw [site.final_eq]
      simp
    refine Text.slice?_eq_some_iff.mpr ⟨_, site.below.flatMap Line.text, ?_, site.stop_eq.symm, ?_⟩
    · conv_lhs => rw [site.text_eq]
      simp [hfinal]
    · simp [hfinal]
  simp only [Edit.weave?, hindent, Edit.weave?_of_slice? hafter hrest, Option.bind_eq_bind,
    Option.bind_some, site.newText_eq, newLine, Line.text]
  simp

theorem chain_newLine {front below' : List Line} (hnewline : '\n' ∉ proposal.replacement)
    (hlast : proposal.replacement.getLast? = some ';')
    (h : Line.Chain (front ++ (site.upper ++ site.final :: below'))) :
    Line.Chain (front ++ site.newLine :: below') := by
  have hfinal : '\n' ∉ site.final.content := h.newline_not_mem site.final (by simp)
  rw [site.final_eq] at hfinal
  refine h.replace rfl ?_ ?_
  · simp only [List.mem_append, not_or] at hfinal
    simp [newLine, site.newline_not_mem_indent, hnewline, hfinal.2.2]
  · intro hreturn
    rw [newLine, List.getLast?_append, List.getLast?_append, hlast] at hreturn
    rw [site.final_eq, List.getLast?_append, List.getLast?_append]
    cases hafter : site.after.getLast? with
    | none => simp [hafter] at hreturn
    | some c =>
        rw [hafter] at hreturn
        simpa using hreturn

end Site

/-- The pass over a text from one of its lines on: it leaves lines in which the proposals are in
their places. -/
theorem exists_rewritten {proposals : List Proposal} {edits : List Edit} {done todo : List Line}
    (hsites :
      List.Forall₂ (fun proposal edit => Nonempty (Site text proposal edit)) proposals edits)
    (hreplacement : ∀ proposal ∈ proposals,
      '\n' ∉ proposal.replacement ∧ proposal.replacement.getLast? = some ';')
    (hapart : proposals.Pairwise fun p q => p.statement.last < q.statement.first)
    (hlines : (Buffer.ofText text).lines = done ++ todo)
    (hfirst : ∀ proposal ∈ proposals, done.length ≤ proposal.statement.first) :
    ∃ lines, Edit.weave? text (Text.byteSize (done.flatMap Line.text)) edits =
        some (lines.flatMap Line.text) ∧
      Rewritten done.length (todo.map Line.content) proposals (lines.map Line.content) ∧
      ∀ front, Line.Chain (front ++ todo) → Line.Chain (front ++ lines) := by
  -- The lines in `done` have been passed; the next site starts behind them, after lines to keep.
  induction hsites generalizing done todo with
  | nil =>
      refine ⟨todo, ?_, .nil _ _, fun _ h => h⟩
      have htext : text = done.flatMap Line.text ++ todo.flatMap Line.text := by
        rw [← List.flatMap_append, ← hlines]
        exact (Buffer.text_ofText text).symm
      exact Text.slice?_eq_some_iff.mpr
        ⟨_, [], by rw [List.append_nil, ← htext], rfl, by rw [← htext]⟩
  | @cons proposal edit proposals edits hsite _ ih =>
      obtain ⟨site⟩ := hsite
      obtain ⟨hbehind, hapart⟩ := List.pairwise_cons.mp hapart
      have hle := hfirst proposal List.mem_cons_self
      rw [site.first_eq] at hle
      obtain ⟨kept, habove⟩ : done <+: site.above :=
        List.prefix_of_prefix_length_le ⟨todo, hlines.symm⟩ ⟨_, site.lines_eq.symm⟩ hle
      have htodo : todo = kept ++ (site.upper ++ site.final :: site.below) := by
        have hsplit := hlines.symm.trans site.lines_eq
        rw [← habove, List.append_assoc] at hsplit
        exact List.append_cancel_left hsplit
      have hnext : (Buffer.ofText text).lines =
          (site.above ++ (site.upper ++ [site.final])) ++ site.below := by
        rw [site.lines_eq]
        simp
      have hlength : (site.above ++ (site.upper ++ [site.final])).length =
          proposal.statement.last + 1 := by
        rw [site.last_eq]
        simp [Nat.add_assoc]
      obtain ⟨lines, hweave, hrewritten, hchain⟩ :=
        ih (fun other hother => hreplacement other (List.mem_cons_of_mem _ hother)) hapart hnext
          fun other hother => hlength ▸ hbehind other hother
      obtain ⟨hnewline, hlast⟩ := hreplacement proposal List.mem_cons_self
      refine ⟨kept ++ site.newLine :: lines, ?_, ?_, ?_⟩
      · have hkept : text.slice? (Text.byteSize (done.flatMap Line.text))
            (Text.byteSize (site.above.flatMap Line.text)) = some (kept.flatMap Line.text) := by
          refine Text.slice?_eq_some_iff.mpr ⟨done.flatMap Line.text,
            (site.upper ++ site.final :: site.below).flatMap Line.text, ?_, rfl, ?_⟩
          · conv_lhs => rw [site.text_eq, ← habove]
            simp
          · rw [← habove, List.flatMap_append]
        rw [Edit.weave?_of_slice? hkept (site.weave?_cons hweave)]
        simp
      · rw [htodo]
        simp only [List.map_append, List.map_cons]
        have hfirstEq :
            proposal.statement.first = done.length + (kept.map Line.content).length := by
          rw [site.first_eq, ← habove, List.length_append, List.length_map]
        have hlastEq : proposal.statement.last = done.length + (kept.map Line.content).length +
            (site.upper.map Line.content).length := by
          rw [← hfirstEq, site.last_eq, site.first_eq, List.length_map]
        rw [hlength] at hrewritten
        exact .cons hfirstEq hlastEq site.code_eq site.indent_blank site.blanks_blank site.final_eq
          hrewritten
      · intro front h
        rw [htodo, ← List.append_assoc] at h
        rw [← List.append_assoc]
        apply site.chain_newLine hnewline hlast
        have hfront := hchain (front ++ kept ++ (site.upper ++ [site.final]))
        simp only [List.append_assoc, List.singleton_append] at hfront h ⊢
        exact hfront h

theorem Offered.newline_not_mem_replacement
    (h : Offered settings (Buffer.ofText text).contents trigger proposal)
    (htype : '\n' ∉ settings.levelType) : '\n' ∉ proposal.replacement := by
  obtain ⟨extent, hextent, hstatement, ⟨origin⟩⟩ := exists_extent_of_offer h.lt_length h.offer_eq
  have hcode := newline_not_mem_code hextent.lines_eq (Buffer.newline_not_mem_contents text)
  rw [hstatement] at hcode
  exact Formatter.newline_not_mem_replacement origin hcode (origin.newline_not_mem_head htype hcode)

theorem Offered.getLast?_replacement
    (h : Offered settings (Buffer.ofText text).contents trigger proposal) :
    proposal.replacement.getLast? = some ';' := by
  obtain ⟨-, ⟨origin⟩⟩ := nonempty_origin_of_offer h.offer_eq
  exact origin.getLast?_replacement

section Applied

variable {proposals : List Proposal} {file : Path} {edits : List Edit}

theorem map_ofProposal_of_pinned (h : List.Forall₂ (Pinned text file) proposals edits) :
    proposals.map (Edit.ofProposal file (.ofText text)) = edits.map .ok := by
  induction h with
  | nil => rfl
  | cons hpinned _ ih => rw [List.map_cons, List.map_cons, hpinned.ofProposal_eq, ih]

theorem exists_pinned_edits (file : Path) (hsize : text.byteSize < wordSize)
    (hoffered : ∀ proposal ∈ proposals,
      ∃ trigger, Offered settings (Buffer.ofText text).contents trigger proposal)
    (hapart : proposals.Pairwise fun p q => p.statement.last < q.statement.first) :
    ∃ edits out, List.Forall₂ (Pinned text file) proposals edits ∧
      Edit.applyAll text edits =
        .ok (out, edits.map fun edit => .applied edit.file edit.newText.byteSize) ∧
      Edit.weave? text 0 edits = some out := by
  have hpinned : ∀ proposal ∈ proposals, ∃ edit, Pinned text file proposal edit := by
    intro proposal hmem
    obtain ⟨_, hoffered⟩ := hoffered proposal hmem
    exact hoffered.exists_pinned file hsize
  have hspans : proposals.Pairwise fun p q => p.span.stop.line < q.span.start.line := by
    refine hapart.imp_of_mem fun hp hq hlt => ?_
    obtain ⟨_, hp⟩ := hoffered _ hp
    obtain ⟨_, hq⟩ := hoffered _ hq
    rwa [hp.span_lines.2, hq.span_lines.1]
  obtain ⟨edits, hmap, hfrom, hfollow⟩ := exists_edits hpinned hspans
  have hpairs : List.Forall₂ (Pinned text file) proposals edits := by
    rw [← List.forall₂_eq_eq_eq, List.forall₂_map_left_iff, List.forall₂_map_right_iff] at hmap
    refine List.Forall₂.imp ?_ ((List.forall₂_and_left proposals edits).mpr ⟨hpinned, hmap⟩)
    rintro proposal edit ⟨⟨edit', hpin⟩, hedit⟩
    obtain rfl : edit' = edit := Except.ok.inj (hpin.ofProposal_eq.symm.trans hedit)
    exact hpin
  have hfits : ∀ edit ∈ edits, edit.Fits text := by
    intro edit hedit
    obtain ⟨_, -, hpin⟩ := hfrom edit hedit
    exact hpin.fits
  have happly := Edit.applyAll_eq_ok hfits hfollow
  have hforward : edits.Pairwise fun a b => a.start < b.start :=
    hfollow.imp_of_mem fun ha _ hle => (hfits _ ha).start_lt_stop.trans_le hle
  have hweave := Edit.weave?_forward happly
  rw [Edit.forward_eq_self hforward] at hweave
  exact ⟨edits, _, hpairs, happly, hweave⟩

theorem exists_applyAll_of_offered (file : Path)
    (hsize : text.byteSize < wordSize) (hname : DottedName settings.levelType)
    (hoffered : ∀ proposal ∈ proposals,
      ∃ trigger, Offered settings (Buffer.ofText text).contents trigger proposal)
    (hapart : proposals.Pairwise fun p q => p.statement.last < q.statement.first) :
    ∃ edits out results, proposals.map (Edit.ofProposal file (.ofText text)) = edits.map .ok ∧
      Edit.applyAll text edits = .ok (out, results) ∧
      Rewritten 0 (Buffer.ofText text).contents proposals (Buffer.ofText out).contents := by
  obtain ⟨edits, out, hpinned, happly, hweave⟩ := exists_pinned_edits file hsize hoffered hapart
  have hsites : List.Forall₂ (fun proposal edit => Nonempty (Site text proposal edit))
      proposals edits := by
    refine List.Forall₂.imp ?_ ((List.forall₂_and_left proposals edits).mpr ⟨hoffered, hpinned⟩)
    rintro proposal edit ⟨⟨_, hoffered⟩, hpin⟩
    exact hoffered.nonempty_site hsize hpin.ofProposal_eq
  have hreplacement : ∀ proposal ∈ proposals,
      '\n' ∉ proposal.replacement ∧ proposal.replacement.getLast? = some ';' := by
    intro proposal hmem
    obtain ⟨_, hoffered⟩ := hoffered proposal hmem
    have htype : '\n' ∉ settings.levelType := fun hmem => absurd (hname _ hmem).1 (by decide)
    exact ⟨hoffered.newline_not_mem_replacement htype, hoffered.getLast?_replacement⟩
  obtain ⟨lines, hlines, hrewritten, hchain⟩ :=
    exists_rewritten hsites hreplacement hapart (List.nil_append _).symm fun _ _ => Nat.zero_le _
  have hout := Option.some.inj (hweave.symm.trans hlines)
  have hsplit : (Buffer.ofText (lines.flatMap Line.text)).lines = lines :=
    Line.split_flatMap_text (hchain [] (Line.chain_split text))
  refine ⟨edits, out, _, map_ofProposal_of_pinned hpinned, happly, ?_⟩
  rw [hout, Buffer.contents, Buffer.contents, hsplit]
  exact hrewritten

end Applied

end Formatter

end LogTemplate
