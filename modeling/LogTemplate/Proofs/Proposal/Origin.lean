import LogTemplate.Proofs.Call.Layout
import LogTemplate.Proofs.Message.Operand
import LogTemplate.Proofs.Source.Extent
import LogTemplate.Proposal.Formatter

namespace LogTemplate.Formatter

/-- The way from a statement to its proposal: the call that was split off, the head and the message
that were taken from it, and the operands of the message. -/
structure Origin (settings : Settings) (lines : List Text) (proposal : Proposal) where
  layout : Call.Layout
  head : Text
  message : Text
  operands : List Operand
  code_eq : layout.code = proposal.statement.code
  logging : isLoggingCall proposal.statement.code = true
  standard : (Logger.resolve settings.loggers lines layout.call.receiver).library? = some .standard
  untemplated : hasPlaceholder proposal.statement.code = false
  parts : layout.call.headAndMessage settings.levelType = .ok (head, message)
  parsed : Operand.parse settings.operandBudget (Text.trim message) = .ok operands
  template_eq : proposal.template = Template.ofOperands operands
  replacement_eq : proposal.replacement = replacement head proposal.template
  span_eq : proposal.span = spanOf lines proposal.statement

variable {settings : Settings} {lines : List Text} {statement : Statement} {proposal : Proposal}

theorem nonempty_origin_of_offerCall {call : Call} (hlogging : isLoggingCall statement.code = true)
    (hsplit : Call.split? statement.code = some call)
    (hlibrary : (Logger.resolve settings.loggers lines call.receiver).library? = some .standard)
    (hfresh : hasPlaceholder statement.code = false)
    (h : offerCall settings lines statement call = .ok (.proposed proposal)) :
    proposal.statement = statement ∧ Nonempty (Origin settings lines proposal) := by
  obtain ⟨layout, hcode, rfl⟩ := Call.split?_eq_some_iff.mp hsplit
  rw [offerCall] at h
  split at h
  next => simp at h
  next => simp at h
  next head message hparts =>
    split at h
    next => simp at h
    next template htemplate =>
      obtain rfl := Offer.proposed.inj (Except.ok.inj h)
      rw [Template.ofExpression] at htemplate
      cases hparsed : Operand.parse settings.operandBudget (Text.trim message) with
      | error cause => simp [hparsed, Except.map] at htemplate
      | ok operands =>
          rw [hparsed] at htemplate
          exact ⟨rfl, ⟨⟨layout, head, message, operands, hcode, hlogging, hlibrary, hfresh, hparts,
            hparsed, (Except.ok.inj htemplate).symm, rfl, rfl⟩⟩⟩

theorem nonempty_origin_of_offer (h : offer settings lines statement = .ok (.proposed proposal)) :
    proposal.statement = statement ∧ Nonempty (Origin settings lines proposal) := by
  rw [offer] at h
  split at h
  next => simp at h
  next =>
    split at h
    next => simp at h
    next hlogging =>
      split at h
      next => simp at h
      next call hsplit =>
        split at h
        next => simp at h
        next => simp at h
        next hlibrary =>
          split at h
          next => simp at h
          next hfresh =>
            exact nonempty_origin_of_offerCall (by simpa using hlogging) hsplit hlibrary
              (by simpa using hfresh) h

theorem offer_of_propose {trigger : Nat}
    (h : propose settings lines trigger = .ok (.proposed proposal)) :
    trigger < lines.length ∧
      offer settings lines (Statement.locate lines trigger) = .ok (.proposed proposal) := by
  rw [propose] at h
  split at h
  next htrigger => exact ⟨htrigger, h⟩
  next => simp at h

theorem exists_extent_of_offer {trigger : Nat} (htrigger : trigger < lines.length)
    (h : offer settings lines (Statement.locate lines trigger) = .ok (.proposed proposal)) :
    ∃ extent, Statement.Surrounds extent lines trigger ∧
      extent.statement = proposal.statement ∧ Nonempty (Origin settings lines proposal) := by
  obtain ⟨extent, hextent⟩ := Statement.exists_surrounds htrigger
  obtain ⟨hstatement, horigin⟩ := nonempty_origin_of_offer h
  exact ⟨extent, hextent, hextent.statement_eq.trans hstatement.symm, horigin⟩

namespace Origin

variable {extent : Statement.Extent}

theorem shape (origin : Origin settings lines proposal)
    (hextent : extent.statement = proposal.statement) :
    isReceiver origin.layout.owner = true ∧ isLogLevel origin.layout.level = true ∧
      isCallTail (origin.layout.arguments ++
        ')' :: (origin.layout.gap ++ ';' :: origin.layout.rest)) = true := by
  apply origin.layout.shape_of_isLoggingCall
  · rw [origin.code_eq, ← hextent]
    exact extent.trimmed_code
  · rw [origin.code_eq]
    exact origin.logging

theorem semicolon_mem_final (origin : Origin settings lines proposal)
    (hextent : extent.statement = proposal.statement) : ';' ∈ extent.final := by
  apply extent.semicolon_mem_final
  rw [hextent, ← origin.code_eq, Call.Layout.code]
  simp

theorem final_trim_ne_nil (origin : Origin settings lines proposal)
    (hextent : extent.statement = proposal.statement) : extent.final.trim ≠ [] := by
  have hmem := origin.semicolon_mem_final hextent
  rw [← Text.mem_trim_iff (by decide)] at hmem
  exact List.ne_nil_of_mem hmem

theorem message_infix (origin : Origin settings lines proposal) :
    origin.message <:+: proposal.statement.code := by
  have harguments : origin.layout.arguments <:+: proposal.statement.code := by
    rw [← origin.code_eq, Call.Layout.code]
    exact ⟨origin.layout.owner ++ '.' :: (origin.layout.level ++ ['(']),
      ')' :: (origin.layout.gap ++ ';' :: origin.layout.rest), by simp⟩
  obtain ⟨-, ⟨-, level, hcut, -⟩ | ⟨-, hmessage, -⟩⟩ := Call.cases_of_headAndMessage origin.parts
  · have hsplit := (Delimiter.cutAt_eq_some_iff.mp hcut).1
    have hmessage : origin.message <:+: origin.layout.arguments :=
      ⟨level ++ [','], [], by simpa [Call.Layout.call] using hsplit.symm⟩
    exact hmessage.trans harguments
  · rw [hmessage]
    exact harguments

theorem text_infix (origin : Origin settings lines proposal) {operand : Operand}
    (hmem : operand ∈ origin.operands) : operand.text <:+: proposal.statement.code := by
  have htext := Operand.text_infix_of_mem_parse origin.parsed hmem
  exact (htext.trans (Text.trim_infix origin.message)).trans origin.message_infix

end Origin

end LogTemplate.Formatter
