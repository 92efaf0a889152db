import LogTemplate.Proofs.Call.Exchange
import LogTemplate.Proofs.Message.Quoted
import LogTemplate.Proofs.Proposal.Change
import LogTemplate.Proofs.Proposal.Numbering

/-!
When nothing is offered for a statement. This is decided by the code of the statement and by the
library of its receiver. A statement that starts with a replacement is always skipped: with a
parameter it has a placeholder, and without one it passes an argument besides its message, which is
seen when the replacement is split as a call.
-/

namespace LogTemplate

open Delimiter

/-- A name that can hold level constants: there is no blank, quote, parenthesis or comma in it. -/
def DottedName (name : Text) : Prop :=
  ∀ c ∈ name, isBlank c = false ∧ Plain c ∧ c ≠ ','

instance (name : Text) : Decidable (DottedName name) :=
  List.decidableBAll (fun c => isBlank c = false ∧ Plain c ∧ c ≠ ',') name

theorem eq_of_toCapital_eq {c d : Char} (h : toCapital c = d) (hd : d.isUpper = false) : c = d := by
  rw [toCapital] at h
  split at h
  next =>
    subst h
    exact absurd hd (by decide)
  next =>
    delta Char.toUpper at h
    split at h
    next hlower =>
      subst h
      have hcapital : 65 ≤ (c.val + ('A'.val - 'a'.val)).toNat ∧
          (c.val + ('A'.val - 'a'.val)).toNat ≤ 90 := by
        have hshift : ('A'.val - 'a'.val).toNat = 4294967264 := rfl
        have ha : 'a'.val.toNat = 97 := rfl
        have hz : 'z'.val.toNat = 122 := rfl
        rw [UInt32.le_iff_toNat_le, UInt32.le_iff_toNat_le] at hlower
        rw [UInt32.toNat_add, hshift]
        omega
      exact absurd (decide_eq_true hcapital) (Bool.eq_false_iff.mp hd)
    next => exact h

theorem toCapital_ne {c d : Char} (hc : continuesReceiver c = true)
    (hd : continuesReceiver d = false) (hupper : d.isUpper = false) : toCapital c ≠ d :=
  fun heq => ne_of_continuesReceiver hc hd (eq_of_toCapital_eq heq hupper)

theorem plain_toCapital {c : Char} (h : continuesReceiver c = true) : Plain (toCapital c) :=
  ⟨toCapital_ne h (by decide) (by decide), toCapital_ne h (by decide) (by decide),
    toCapital_ne h (by decide) (by decide), toCapital_ne h (by decide) (by decide)⟩

/-- The first argument of the call that takes the place of another one: the level that is passed to
the other one, or the constant with the name of its method. -/
def Call.levelArgument? (call : Call) (levelType : Text) : Option Text :=
  if call.passesLevel then (cutAt ',' call.arguments).map Prod.fst
  else some (levelType ++ '.' :: call.level.map toCapital)

theorem Call.Layout.passed_first (layout : Call.Layout) {first message : Text}
    (h : cutAt ',' layout.arguments = some (first, message)) : Passed ')' 0 first := by
  obtain ⟨harguments, hcomma⟩ := cutAt_eq_some_iff_passed.mp h
  have hsearch := (cutAt_eq_some_iff_passed.mp layout.closed).2.search_eq
  rw [harguments] at hsearch
  exact ⟨search_eq_none_of_append hsearch, hcomma.run_eq⟩

theorem passed_levelConstant {level levelType : Text} {target : Char}
    (hlevel : isLogLevel level = true) (hname : DottedName levelType)
    (htarget : target = ')' ∨ target = ',') :
    Passed target 0 (levelType ++ '.' :: level.map toCapital) := by
  have hplain : ∀ c ∈ levelType ++ '.' :: level.map toCapital, Plain c ∧ c ≠ ',' := by
    intro c hc
    simp only [List.mem_append, List.mem_cons, List.mem_map] at hc
    rcases hc with hc | rfl | ⟨d, hd, rfl⟩
    · exact (hname c hc).2
    · decide
    · have hd := continuesReceiver_of_isLogLevel hlevel d hd
      exact ⟨plain_toCapital hd, toCapital_ne hd (by decide) (by decide)⟩
  refine passed_of_plain (fun c hc => (hplain c hc).1) fun hmem => ?_
  rcases htarget with rfl | rfl
  · exact (hplain _ hmem).1.2.2.2 rfl
  · exact (hplain _ hmem).2 rfl

namespace Template

theorem passed_intercalate {params : List Text} (h : ∀ param ∈ params, Passed ')' 0 param) :
    Passed ')' 0 (", ".toList.intercalate params) := by
  induction params with
  | nil => exact ⟨rfl, rfl⟩
  | cons param params ih =>
      have hparam := h param List.mem_cons_self
      have hrest := ih fun other hother => h other (List.mem_cons_of_mem _ hother)
      cases params with
      | nil => simpa using hparam
      | cons next params =>
          have hcomma : Passed ')' 0 ", ".toList := passed_of_plain (by decide) (by decide)
          rw [List.intercalate_cons_cons]
          exact (hparam.append hcomma).append hrest

theorem passed_argumentList {template : Template}
    (h : ∀ param ∈ template.params, Passed ')' 0 param) : Passed ')' 0 template.argumentList := by
  rw [argumentList]
  split
  · rename_i single hsingle
    exact h single (by simp [hsingle])
  · have hopening : Passed ')' 0 "new Object[] \x7b".toList :=
      passed_of_plain (by decide) (by decide)
    have hclosing : Passed ')' 0 ['}'] := passed_of_plain (by decide) (by decide)
    exact hopening.append ((passed_intercalate h).append hclosing)

end Template

namespace Formatter

variable {settings : Settings} {lines lines' : List Text} {statement statement' : Statement}
  {proposal : Proposal}

def Skipped (settings : Settings) (lines : List Text) (statement : Statement) : Prop :=
  ∃ reason, offer settings lines statement = .ok (.skipped reason)

theorem skipped_iff :
    Skipped settings lines statement ↔
      ∀ layout : Call.Layout, layout.code = statement.code → isLoggingCall statement.code = true →
        (Logger.resolve settings.loggers lines layout.call.receiver).library? = some .standard →
        hasPlaceholder statement.code = false →
        ∃ unfit, layout.call.headAndMessage settings.levelType = .error unfit := by
  constructor
  · rintro ⟨reason, hoffer⟩ layout hcode hlogging hlibrary hplaceholder
    have hempty : statement.code.isEmpty = false := by
      rw [← hcode]
      simp [Call.Layout.code]
    have hsplit : Call.split? statement.code = some layout.call :=
      Call.split?_eq_some_iff.mpr ⟨layout, hcode, rfl⟩
    rw [offer, if_neg (by simp [hempty]), if_neg (by simp [hlogging]), hsplit] at hoffer
    simp only [hlibrary, hplaceholder, offerCall] at hoffer
    cases hparts : layout.call.headAndMessage settings.levelType with
    | error unfit => exact ⟨unfit, rfl⟩
    | ok parts =>
        simp only [hparts] at hoffer
        cases htemplate : Template.ofExpression settings.operandBudget (Text.trim parts.2) with
        | error cause => simp [htemplate] at hoffer
        | ok template => simp [htemplate] at hoffer
  · intro h
    rw [Skipped, offer]
    split
    next => exact ⟨_, rfl⟩
    next =>
      split
      next => exact ⟨_, rfl⟩
      next hlogging =>
        split
        next => exact ⟨_, rfl⟩
        next call hsplit =>
          split
          next => exact ⟨_, rfl⟩
          next => exact ⟨_, rfl⟩
          next hlibrary =>
            split
            next => exact ⟨_, rfl⟩
            next hplaceholder =>
              obtain ⟨layout, hcode, rfl⟩ := Call.split?_eq_some_iff.mp hsplit
              obtain ⟨unfit, hunfit⟩ :=
                h layout hcode (by simpa using hlogging) hlibrary (by simpa using hplaceholder)
              rw [offerCall, hunfit]
              cases unfit with
              | noLevel => exact ⟨_, rfl⟩
              | moreArguments => exact ⟨_, rfl⟩

/-- The receiver of the call in a code belongs to the same library in both sources. -/
def SameLibrary (settings : Settings) (lines lines' : List Text) (code : Text) : Prop :=
  ∀ call ∈ Call.split? code, (Logger.resolve settings.loggers lines' call.receiver).library? =
    (Logger.resolve settings.loggers lines call.receiver).library?

instance (settings : Settings) (lines lines' : List Text) (code : Text) :
    Decidable (SameLibrary settings lines lines' code) :=
  inferInstanceAs (Decidable (∀ call ∈ Call.split? code, _ = _))

theorem offer_congr (hcode : statement'.code = statement.code)
    (hlibrary : SameLibrary settings lines lines' statement.code) :
    (∃ reason, offer settings lines statement = .ok (.skipped reason) ∧
        offer settings lines' statement' = .ok (.skipped reason)) ∨
      (∃ found found', offer settings lines statement = .ok (.proposed found) ∧
        offer settings lines' statement' = .ok (.proposed found')) ∨
      ∃ refusal refusal', offer settings lines statement = .error refusal ∧
        offer settings lines' statement' = .error refusal' := by
  rw [offer, offer, hcode]
  split
  next => exact .inl ⟨_, rfl, rfl⟩
  next =>
    split
    next => exact .inl ⟨_, rfl, rfl⟩
    next =>
      split
      next => exact .inl ⟨_, rfl, rfl⟩
      next call hsplit =>
        rw [hlibrary call hsplit]
        split
        next => exact .inl ⟨_, rfl, rfl⟩
        next => exact .inl ⟨_, rfl, rfl⟩
        next =>
          split
          next => exact .inl ⟨_, rfl, rfl⟩
          next =>
            rw [offerCall, offerCall]
            split
            next => exact .inl ⟨_, rfl, rfl⟩
            next => exact .inl ⟨_, rfl, rfl⟩
            next =>
              split
              next => exact .inr (.inr ⟨_, _, rfl, rfl⟩)
              next => exact .inr (.inl ⟨_, _, rfl, rfl⟩)

section Same

variable (hcode : statement'.code = statement.code)
  (hlibrary : SameLibrary settings lines lines' statement.code)

include hcode hlibrary

theorem Skipped.of_code_eq (h : Skipped settings lines statement) :
    Skipped settings lines' statement' := by
  obtain ⟨reason, hreason⟩ := h
  rcases offer_congr hcode hlibrary with ⟨same, -, hsame⟩ | ⟨_, _, hother, -⟩ | ⟨_, _, hother, -⟩
  · exact ⟨same, hsame⟩
  · rw [hreason] at hother
    cases hother
  · rw [hreason] at hother
    cases hother

theorem exists_refusal_of_code_eq {refusal : Refusal}
    (h : offer settings lines statement = .error refusal) :
    ∃ refusal', offer settings lines' statement' = .error refusal' := by
  rcases offer_congr hcode hlibrary with ⟨_, hother, -⟩ | ⟨_, _, hother, -⟩ | ⟨_, same, -, hsame⟩
  · rw [h] at hother
    cases hother
  · rw [h] at hother
    cases hother
  · exact ⟨same, hsame⟩

end Same

theorem skipped_of_hasPlaceholder (h : hasPlaceholder statement.code = true) :
    Skipped settings lines statement := by
  refine skipped_iff.mpr fun layout _ _ _ hplaceholder => ?_
  rw [h] at hplaceholder
  cases hplaceholder

theorem hasPlaceholder_replacement (origin : Origin settings lines proposal)
    (hparams : proposal.template.params ≠ []) (u v : Text) :
    hasPlaceholder (u ++ (proposal.replacement ++ v)) = true := by
  by_contra hnone
  have hbody : Template.bodyFrom 0 origin.operands <:+: u ++ (proposal.replacement ++ v) := by
    rw [origin.replacement_eq, origin.template_eq, replacement]
    refine ⟨u ++ (origin.head ++ ", \"".toList), '"' :: (", ".toList ++
      ((Template.ofOperands origin.operands).argumentList ++ (");".toList ++ v))), ?_⟩
    simp [Template.ofOperands]
  have hempty := placeholders_eq_nil_of_infix (by simpa using hnone) hbody
  have hlength := Template.length_params_le [] 0 origin.operands
  rw [List.nil_append, hempty, List.length_nil, Nat.le_zero, List.length_eq_zero_iff] at hlength
  apply hparams
  rw [origin.template_eq]
  exact hlength

/-- A replacement as a call of `log`, with the level, the template and the parameters for its
arguments. The layout `old` is that of the call it replaces. -/
structure Renewal (settings : Settings) (proposal : Proposal) (old : Call.Layout) where
  layout : Call.Layout
  first : Text
  message : Text
  text_eq : layout.text = proposal.replacement
  gap_eq : layout.gap = []
  owner_eq : layout.owner = old.owner
  level_known : isLogLevel layout.level = true
  passes_level : layout.call.passesLevel = true
  levelArgument_eq : old.call.levelArgument? settings.levelType = some first
  cut_first : cutAt ',' layout.call.arguments = some (first, message)
  cut_message : cutAt ',' message =
    some (' ' :: proposal.template.text, ' ' :: proposal.template.argumentList)

namespace Origin

theorem passed_text (origin : Origin settings lines proposal) {target : Char}
    (htarget : target ≠ '"') : Passed target 0 proposal.template.text := by
  rw [origin.template_eq]
  refine passed_quoted (Template.quotable_bodyFrom 0 ?_) htarget
  exact fun text => Operand.quotable_of_literal_mem_parse origin.parsed

variable (origin : Origin settings lines proposal)
  (hreceiver : isReceiver origin.layout.owner = true)
  (hlevel : isLogLevel origin.layout.level = true) (hname : DottedName settings.levelType)

include hreceiver hlevel hname

theorem exists_head_eq :
    ∃ method first, origin.head = origin.layout.owner ++ '.' :: (method ++ '(' :: first) ∧
      isLogLevel method = true ∧ method.map Char.toLower = "log".toList ∧
      Passed ')' 0 first ∧ Passed ',' 0 first ∧
      origin.layout.call.levelArgument? settings.levelType = some first := by
  have htrim : origin.layout.call.receiver = origin.layout.owner := trim_owner hreceiver
  obtain ⟨-, ⟨hpasses, first, hcut, hhead⟩ | ⟨hpasses, -, hhead⟩⟩ :=
    Call.cases_of_headAndMessage origin.parts
  · refine ⟨origin.layout.level, first, htrim ▸ hhead, hlevel, ?_, origin.layout.passed_first hcut,
      (cutAt_eq_some_iff_passed.mp hcut).2, ?_⟩
    · simpa [Call.passesLevel, Call.Layout.call] using hpasses
    · rw [Call.levelArgument?, if_pos hpasses, hcut]
      rfl
  · refine ⟨"log".toList, settings.levelType ++ '.' :: origin.layout.level.map toCapital, ?_,
      by decide, by decide, passed_levelConstant hlevel hname (.inl rfl),
      passed_levelConstant hlevel hname (.inr rfl), ?_⟩
    · rw [hhead, htrim]
      simp [Call.Layout.call]
    · rw [Call.levelArgument?, if_neg (by simp [hpasses])]
      rfl

/-- When the parameters are closed, the replacement is a call, whatever follows it. -/
theorem exists_renewal (hclosed : ∀ param ∈ proposal.template.params, Passed ')' 0 param)
    (rest : Text) :
    ∃ renewal : Renewal settings proposal origin.layout, renewal.layout.rest = rest := by
  obtain ⟨method, first, hhead, hmethod, hlog, hclose, hcomma, hfirst⟩ :=
    origin.exists_head_eq hreceiver hlevel hname
  have hblank : Passed ',' 0 [' '] := passed_of_plain (by decide) (by decide)
  have hcommas : Passed ')' 0 ", ".toList := passed_of_plain (by decide) (by decide)
  have harguments : Passed ')' 0 (first ++ (", ".toList ++ (proposal.template.text ++
      (", ".toList ++ proposal.template.argumentList)))) :=
    hclose.append (hcommas.append ((origin.passed_text (by decide)).append
      (hcommas.append (Template.passed_argumentList hclosed))))
  have hparen : '(' ∉ method := not_mem_of_isLogLevel hmethod (by decide)
  let layout : Call.Layout :=
    ⟨origin.layout.owner, method, _, [], rest, origin.layout.dot_not_mem,
      origin.layout.paren_not_mem_owner, hparen, cutAt_eq_some_iff_passed.mpr ⟨rfl, harguments⟩,
      by simp [Text.AllBlank]⟩
  let message : Text :=
    ' ' :: (proposal.template.text ++ (", ".toList ++ proposal.template.argumentList))
  refine ⟨⟨layout, first, message, ?_, rfl, rfl, hmethod, ?_, hfirst, ?_, ?_⟩, rfl⟩
  · rw [origin.replacement_eq, replacement, hhead]
    simp [layout, Call.Layout.text]
  · rw [Call.passesLevel, show layout.call.level = method from rfl, hlog]
    rfl
  · exact cutAt_eq_some_iff_passed.mpr ⟨rfl, hcomma⟩
  · exact cutAt_eq_some_iff_passed.mpr ⟨rfl, hblank.append (origin.passed_text (by decide))⟩

end Origin

namespace Renewal

variable {old : Call.Layout} (renewal : Renewal settings proposal old)

theorem exists_unfit (levelType : Text) :
    ∃ unfit, renewal.layout.call.headAndMessage levelType = .error unfit := by
  rw [Call.exists_unfit_iff, if_pos renewal.passes_level]
  intro level message hcut
  rw [renewal.cut_first] at hcut
  obtain ⟨-, rfl⟩ := Prod.mk.inj (Option.some.inj hcut)
  rw [renewal.cut_message]
  exact Option.some_ne_none _

theorem code_eq {rest : Text} (hrest : renewal.layout.rest = rest) :
    renewal.layout.code = proposal.replacement ++ rest := by
  rw [← renewal.layout.text_append_rest, renewal.text_eq, hrest]

end Renewal

/-- A statement that starts with a replacement is skipped, whatever follows and whatever the source
tells about the receiver. -/
theorem skipped_of_replacement (origin : Origin settings lines proposal)
    (hreceiver : isReceiver origin.layout.owner = true)
    (hlevel : isLogLevel origin.layout.level = true) (hname : DottedName settings.levelType)
    {rest : Text} (hcode : statement.code = proposal.replacement ++ rest) :
    Skipped settings lines' statement := by
  by_cases hparams : proposal.template.params = []
  · obtain ⟨renewal, hrest⟩ :=
      origin.exists_renewal hreceiver hlevel hname (by simp [hparams]) rest
    refine skipped_iff.mpr fun other hother _ _ _ => ?_
    have hsame : renewal.layout.code = other.code := by
      rw [hother, hcode, renewal.code_eq hrest]
    have hsplit := Call.split?_eq_some_iff.mpr ⟨renewal.layout, hsame, rfl⟩
    have hcall : renewal.layout.call = other.call := by
      rw [Call.split?_eq_some_iff.mpr ⟨other, rfl, rfl⟩] at hsplit
      exact (Option.some.inj hsplit).symm
    exact hcall ▸ renewal.exists_unfit settings.levelType
  · apply skipped_of_hasPlaceholder
    rw [hcode]
    exact hasPlaceholder_replacement origin hparams [] rest

end Formatter

end LogTemplate
