import LogTemplate.Proofs.Call.Exchange
import LogTemplate.Proofs.Proposal.Settled

/-!
Statements that take in a rewritten one. The statement around the head of a block goes on to the
first semicolon inside the block, and so it may end with a statement that is rewritten. If nothing
was offered for it before, nothing is offered for it afterwards: either the rewritten statement has
a placeholder, or it is passed over in the arguments of the enclosing call.
-/

namespace LogTemplate

open Delimiter

theorem isDecimalDigit_eq_false_of_startsReceiver {c : Char} (h : startsReceiver c = true) :
    isDecimalDigit c = false := by
  have hdigits : ∀ first ∈ digitZeros, ∀ k < 10,
      startsReceiver (Char.ofNat (first + k)) = false := by
    decide +kernel
  by_contra hdigit
  obtain ⟨first, hfirst, hle, hge⟩ :
      ∃ first, first ∈ digitZeros ∧ first ≤ c.toNat ∧ c.toNat ≤ first + 9 := by
    simpa [isDecimalDigit] using hdigit
  have hc := hdigits first hfirst (c.toNat - first) (by omega)
  rw [Nat.add_sub_cancel' hle, Char.ofNat_toNat, h] at hc
  cases hc

theorem hasPlaceholder_exchange {u x y : Text} (h : hasPlaceholder (u ++ x) = true)
    (hx : hasPlaceholder x = false) (hhead : ∀ c, x.head? = some c → isDecimalDigit c = false)
    (hbrace : '}' ∈ y) (hnewline : '\n' ∉ u ++ y) : hasPlaceholder (u ++ y) = true := by
  induction u with
  | nil =>
      rw [List.nil_append, hx] at h
      cases h
  | cons c u ih =>
      have hrest : '\n' ∉ u ++ y := fun hmem => hnewline (List.mem_cons_of_mem c hmem)
      rw [List.cons_append] at h ⊢
      by_cases hc : c = '{'
      · subst hc
        cases u with
        | nil =>
            cases x with
            | nil => simp [hasPlaceholder] at h
            | cons d x =>
                have hd := hhead d rfl
                simp [hasPlaceholder, hd, hx] at h
        | cons d u =>
            simp only [List.cons_append, hasPlaceholder, Bool.or_eq_true, Bool.and_eq_true] at h ⊢
            rcases h with ⟨hdigit, -⟩ | h
            · refine .inl ⟨hdigit, ?_⟩
              have hall : ∀ e ∈ u ++ y, decide (e ≠ '\n') = true := by
                intro e he
                rw [decide_eq_true_eq]
                rintro rfl
                exact hrest (List.mem_cons_of_mem d he)
              rw [closesOnLine, List.takeWhile_eq_self_iff.mpr hall]
              simp [hbrace]
            · exact .inr (ih h hrest)
      · apply hasPlaceholder_cons
        rw [hasPlaceholder] at h
        · exact ih h hrest
        · rintro d cs rfl
          exact absurd rfl hc

theorem exists_cons_of_isReceiver {name : Text} (h : isReceiver name = true) :
    ∃ c cs, name = c :: cs ∧ startsReceiver c = true := by
  cases name with
  | nil => simp [isReceiver] at h
  | cons c cs =>
      rw [isReceiver, Bool.and_eq_true] at h
      exact ⟨c, cs, rfl, h.1⟩

theorem isCallTail_append {u tail : Text} (h : isCallTail tail = true) (hnewline : '\n' ∉ u) :
    isCallTail (u ++ tail) = true := by
  simp only [isCallTail, Bool.and_eq_true, decide_eq_true_eq, beq_iff_eq, Bool.not_eq_true',
    List.contains_eq_mem, decide_eq_false_iff_not] at h ⊢
  refine ⟨⟨?_, ?_⟩, ?_⟩
  · rw [List.length_append]
    omega
  · rw [List.getLast?_append, h.1.2]
    rfl
  · simp [hnewline, h.2]

theorem isLoggingCall_of_parts {owner level tail : Text} (hreceiver : isReceiver owner = true)
    (hlevel : isLogLevel level = true) (htail : isCallTail tail = true)
    (htrimmed : Text.Trimmed (owner ++ '.' :: (level ++ '(' :: tail))) :
    isLoggingCall (owner ++ '.' :: (level ++ '(' :: tail)) = true :=
  isLoggingCall_iff.mpr
    ⟨owner, level, tail, Text.trim_eq_self htrimmed, hreceiver, hlevel, htail⟩

theorem Call.Layout.opening_prefix (layout : Call.Layout) {u v : Text} {c : Char}
    (hcode : layout.code = u ++ v) (hreceiver : isReceiver layout.owner = true)
    (hlevel : isLogLevel layout.level = true) (hc : c ∈ u) (hbrace : c = '{' ∨ c = '}') :
    layout.owner ++ '.' :: (layout.level ++ ['(']) <+: u := by
  have hopen : layout.owner ++ '.' :: (layout.level ++ ['(']) <+: layout.code :=
    ⟨layout.arguments ++ ')' :: (layout.gap ++ ';' :: layout.rest), by simp [code]⟩
  rcases List.prefix_or_prefix_of_prefix hopen ⟨v, hcode.symm⟩ with h | h
  · exact h
  · have hmem := h.subset hc
    simp only [List.mem_append, List.mem_cons, List.not_mem_nil, or_false] at hmem
    have hname : continuesReceiver c = false ∧ c ≠ '.' ∧ c ≠ '(' := by
      rcases hbrace with rfl | rfl
      · decide
      · decide
    rcases hmem with hmem | hmem | hmem | hmem
    · rw [continuesReceiver_of_isReceiver hreceiver c hmem] at hname
      cases hname.1
    · exact absurd hmem hname.2.1
    · rw [continuesReceiver_of_isLogLevel hlevel c hmem] at hname
      cases hname.1
    · exact absurd hmem hname.2.2

namespace Formatter

open Statement

variable {settings : Settings} {lines lines' : List Text} {proposal : Proposal} {u : Text}
  {statement statement' : Statement}

theorem brace_mem_replacement (origin : Origin settings lines proposal)
    (hparams : proposal.template.params = []) : '}' ∈ proposal.replacement := by
  rw [origin.replacement_eq, replacement, Template.argumentList, hparams]
  simp

theorem isLoggingCall_append (origin : Origin settings lines proposal)
    (htail : isCallTail (origin.layout.arguments ++
      ')' :: (origin.layout.gap ++ ';' :: origin.layout.rest)) = true)
    {owner level : Text} (hreceiver : isReceiver owner = true) (hlevel : isLogLevel level = true)
    (hopening : owner ++ '.' :: (level ++ ['(']) <+: u)
    (htrimmed : Text.Trimmed (u ++ proposal.statement.code))
    (hnewline : '\n' ∉ u ++ proposal.statement.code) :
    isLoggingCall (u ++ proposal.statement.code) = true := by
  obtain ⟨v, rfl⟩ := hopening
  have hcode : proposal.statement.code = (origin.layout.owner ++ '.' :: (origin.layout.level ++
      ['('])) ++ (origin.layout.arguments ++
        ')' :: (origin.layout.gap ++ ';' :: origin.layout.rest)) := by
    rw [← origin.code_eq, Call.Layout.code]
    simp
  have hsplit : owner ++ '.' :: (level ++ ['(']) ++ v ++ proposal.statement.code =
      owner ++ '.' :: (level ++ '(' :: (v ++ proposal.statement.code)) := by
    simp
  rw [hsplit] at htrimmed hnewline ⊢
  refine isLoggingCall_of_parts hreceiver hlevel ?_ htrimmed
  rw [hcode] at hnewline ⊢
  rw [← List.append_assoc] at hnewline ⊢
  refine isCallTail_append htail fun hmem => hnewline ?_
  exact List.mem_append_right _ (.tail _ (List.mem_append_right _ (.tail _
    (List.mem_append_left _ hmem))))

/-- Behind `u`, which holds a brace, stands a statement in the first source and its replacement in
the second one. If the whole is skipped in the first source, so it is in the second. -/
theorem skipped_enclosing (origin : Origin settings lines proposal)
    (hreceiver : isReceiver origin.layout.owner = true)
    (hlevel : isLogLevel origin.layout.level = true)
    (htail : isCallTail (origin.layout.arguments ++
      ')' :: (origin.layout.gap ++ ';' :: origin.layout.rest)) = true)
    (hname : DottedName settings.levelType) {c : Char} (hc : c ∈ u) (hbrace : c = '{' ∨ c = '}')
    {rest : Text} (hstatement : statement.code = u ++ proposal.statement.code)
    (hcode' : statement'.code = u ++ (proposal.replacement ++ rest))
    (htrimmed : Text.Trimmed statement.code) (htrimmed' : Text.Trimmed statement'.code)
    (hnewline : '\n' ∉ statement.code) (hnewline' : '\n' ∉ statement'.code)
    (hlibrary : SameLibrary settings lines lines' statement'.code)
    (hclear : proposal.template.params = [] → isLoggingCall statement.code = true →
      (Reader.fresh.run u).mode = .outside ∧ rest = origin.layout.rest)
    (hskipped : Skipped settings lines statement) : Skipped settings lines' statement' := by
  by_cases hparams : proposal.template.params = []
  · refine skipped_iff.mpr fun layout hlayout hlogging hstandard hplaceholder => ?_
    obtain ⟨howner, hmethod, -⟩ :=
      layout.shape_of_isLoggingCall (hlayout ▸ htrimmed') (hlayout ▸ hlogging)
    have hopening := layout.opening_prefix (hlayout.trans hcode') howner hmethod hc hbrace
    have hlogging : isLoggingCall statement.code = true := by
      rw [hstatement] at htrimmed hnewline ⊢
      exact isLoggingCall_append origin htail howner hmethod hopening htrimmed hnewline
    obtain ⟨hmode, rfl⟩ := hclear hparams hlogging
    -- Both the replacement and the old call are whole calls, so either can be passed over by a
    -- reader outside literals, and the enclosing call has the same arguments around it.
    obtain ⟨renewal, -⟩ := origin.exists_renewal hreceiver hlevel hname (by simp [hparams]) []
    have hinner : isReceiver renewal.layout.owner = true := renewal.owner_eq ▸ hreceiver
    have hcode : statement.code = u ++ (origin.layout.text ++ origin.layout.rest) := by
      rw [hstatement, origin.layout.text_append_rest, origin.code_eq]
    obtain ⟨d, owner, hd, hstarts⟩ := exists_cons_of_isReceiver hreceiver
    have hcontinues : continuesReceiver d = true :=
      continuesReceiver_of_isReceiver hreceiver d (by simp [hd])
    have hhead : ∃ d tail, proposal.replacement = d :: tail ∧ isBlank d = false ∧ d ≠ ';' := by
      obtain ⟨tail, htail⟩ := origin.exists_replacement_eq hreceiver
      exact ⟨d, owner ++ tail, by rw [htail, hd, List.cons_append],
        isBlank_eq_false_of_continuesReceiver hcontinues,
        ne_of_continuesReceiver hcontinues (by decide)⟩
    obtain ⟨other, hother, hsame, hunfit⟩ := Call.exists_layout_exchange layout
      (hlayout.trans hcode') hopening hmethod howner hmode
      (fun _ htarget depth =>
        renewal.text_eq ▸ renewal.layout.passed_text depth hinner renewal.level_known htarget)
      (fun _ htarget depth => origin.layout.passed_text depth hreceiver hlevel htarget) hhead
    apply hunfit
    refine skipped_iff.mp hskipped other (hother.trans hcode.symm) hlogging ?_ ?_
    · rw [hsame, ← hlibrary layout.call (Call.split?_eq_some_iff.mpr ⟨layout, hlayout, rfl⟩)]
      exact hstandard
    · by_contra hfound
      have hfirst : ∀ c, proposal.statement.code.head? = some c → isDecimalDigit c = false := by
        intro c hc
        rw [← origin.code_eq, Call.Layout.code, hd] at hc
        obtain rfl := Option.some.inj hc
        exact isDecimalDigit_eq_false_of_startsReceiver hstarts
      have hkept := hasPlaceholder_exchange (by simpa [hstatement] using hfound) origin.untemplated
        hfirst (List.mem_append_left _ (brace_mem_replacement origin hparams))
        (hcode' ▸ hnewline')
      rw [hcode', hkept] at hplaceholder
      cases hplaceholder
  · apply skipped_of_hasPlaceholder
    rw [hcode']
    exact hasPlaceholder_replacement origin hparams u rest

end Formatter

end LogTemplate
