import LogTemplate.Proofs.Call.Grammar
import LogTemplate.Proofs.Proposal.Origin

namespace LogTemplate

variable {code : Text}

namespace Call.Form

variable (form : Call.Form code)

include form in
theorem dot_before_paren : code.idxOf '.' < code.idxOf '(' ∧ code.idxOf '(' < code.length := by
  have hdot : '.' ∉ form.receiver := not_mem_of_isReceiver form.isReceiver_receiver (by decide)
  have hparen : '(' ∉ form.receiver := not_mem_of_isReceiver form.isReceiver_receiver (by decide)
  have hmem : '(' ∈ code := by
    rw [form.text_eq]
    simp
  refine ⟨?_, List.idxOf_lt_length_of_mem hmem⟩
  rw [form.text_eq, List.idxOf_append_of_notMem hdot, List.idxOf_append_of_notMem hparen,
    List.idxOf_cons_self, List.idxOf_cons_ne _ (by decide)]
  omega

theorem parts_of_split? {call : Call} (h : Call.split? code = some call) :
    call.receiver = form.receiver ∧ call.level = form.level := by
  obtain ⟨layout, hcode, rfl⟩ := Call.split?_eq_some_iff.mp h
  obtain ⟨hreceiver, hlevel, -⟩ := form.eq_of_append layout.dot_not_mem layout.paren_not_mem_level
    hcode.symm
  refine ⟨?_, hlevel.symm⟩
  rw [Layout.call, ← hreceiver]
  exact trim_owner form.isReceiver_receiver

end Call.Form

theorem map_toCapital {level : Text} (h : level.map foldCase ∈ logLevels) :
    level.map toCapital = (level.map foldCase).map Char.toUpper := by
  have hletters : ∀ name ∈ logLevels, 'k' ∉ name := by decide
  rw [List.map_map]
  apply List.map_congr_left
  intro c hc
  apply toCapital_eq
  intro hfold
  exact hletters _ h (hfold ▸ List.mem_map_of_mem hc)

namespace Formatter

theorem exists_levelConstant {settings : Settings} {lines : List Text} {trigger : Nat}
    {proposal : Proposal} (h : propose settings lines trigger = .ok (.proposed proposal)) :
    ∃ call, Call.split? proposal.statement.code = some call ∧
      (call.passesLevel = false → ∃ name ∈ logLevels, call.level.map foldCase = name ∧
        proposal.replacement = replacement (call.receiver ++ ".log(".toList ++
          settings.levelType ++ '.' :: name.map Char.toUpper) proposal.template) := by
  obtain ⟨htrigger, hoffer⟩ := offer_of_propose h
  obtain ⟨extent, -, hstatement, ⟨origin⟩⟩ := exists_extent_of_offer htrigger hoffer
  obtain ⟨-, hlevel, -⟩ := origin.shape hstatement
  refine ⟨origin.layout.call, Call.split?_eq_some_iff.mpr ⟨origin.layout, origin.code_eq, rfl⟩, ?_⟩
  intro hmethod
  have hknown := isLogLevel_iff.mp hlevel
  refine ⟨_, hknown, rfl, ?_⟩
  obtain ⟨-, ⟨hlog, -⟩ | ⟨-, -, hhead⟩⟩ := Call.cases_of_headAndMessage origin.parts
  · rw [hmethod] at hlog
    cases hlog
  · rw [origin.replacement_eq, hhead, ← map_toCapital hknown]
    rfl

/-- In a text that is recognised as a call, and has no blanks around it, the first dot comes before
the first parenthesis, and the call that is split off it has the receiver and the level of its one
form. The replacement of a call of a level method names the level by the capitals of a name on the
list of methods. -/
theorem split?_agrees_with_form :
    (∀ code : Text, code.trim = code → isLoggingCall code = true →
        (code.idxOf '.' < code.idxOf '(' ∧ code.idxOf '(' < code.length) ∧
          ∃ form : Call.Form code, (∀ other : Call.Form code, other = form) ∧
            ∀ call, Call.split? code = some call →
              call.receiver = form.receiver ∧ call.level = form.level) ∧
      ∀ (settings : Settings) (lines : List Text) (trigger : Nat) (proposal : Proposal),
        propose settings lines trigger = .ok (.proposed proposal) →
          ∃ call, Call.split? proposal.statement.code = some call ∧
            (call.passesLevel = false → ∃ name ∈ logLevels, call.level.map foldCase = name ∧
              proposal.replacement = replacement (call.receiver ++ ".log(".toList ++
                settings.levelType ++ '.' :: name.map Char.toUpper) proposal.template) := by
  refine ⟨?_, fun _ _ _ _ => exists_levelConstant⟩
  intro code htrim h
  rw [isLoggingCall_iff_form, htrim] at h
  obtain ⟨form⟩ := h
  exact ⟨form.dot_before_paren, form, fun other => Subsingleton.elim other form,
    fun _ => form.parts_of_split?⟩

/-- The name of the method is written with a long s. -/
def longSLines : List Text :=
  ["class A \x7b java.util.logging.Logger log;".toList, " log.\u017fevere(\"a\" + x);".toList]

def longSProposal : Proposal where
  span := ⟨⟨1, 1⟩, ⟨1, 22⟩⟩
  replacement := "log.log(Level.SEVERE, \"a\x7b0\x7d\", x);".toList
  statement := ⟨"log.\u017fevere(\"a\" + x);".toList, 1, 1⟩
  template := ⟨"\"a\x7b0\x7d\"".toList, ["x".toList]⟩

theorem longSProposal_agrees :
    propose .default longSLines 1 = .ok (.proposed longSProposal) ∧
      (∃ form : Call.Form longSProposal.statement.code,
        form.receiver = "log".toList ∧ form.level = "\u017fevere".toList) ∧
      ∃ name ∈ logLevels, "\u017fevere".toList.map foldCase = name ∧
        longSProposal.replacement =
          replacement ("log.log(Level.".toList ++ name.map Char.toUpper)
            longSProposal.template := by
  have hpropose : propose .default longSLines 1 = .ok (.proposed longSProposal) := by
    decide +kernel
  have hsplit : Call.split? longSProposal.statement.code =
      some ⟨"log".toList, "\u017fevere".toList, "\"a\" + x".toList⟩ := by
    decide +kernel
  obtain ⟨-, form, -, hparts⟩ := split?_agrees_with_form.1 longSProposal.statement.code (by decide)
    (by decide)
  obtain ⟨call, hcall, hlevel⟩ := split?_agrees_with_form.2 .default longSLines 1 _ hpropose
  obtain ⟨hreceiver, hmethod⟩ := hparts _ hsplit
  obtain rfl := Option.some.inj (hsplit.symm.trans hcall)
  exact ⟨hpropose, ⟨form, hreceiver.symm, hmethod.symm⟩, hlevel (by decide)⟩

end Formatter

end LogTemplate
