import LogTemplate.Proofs.Delimiter.Bytes
import LogTemplate.Proofs.Slicing.Logger
import LogTemplate.Proofs.Slicing.Message
import LogTemplate.Proofs.Source.Partition

/-!
What is offered, by slices. Every line, part of a call, operand and declaration is taken here as the
bytes between two offsets, so an offset that is out of range or inside a character would make the
whole search fail. Main statement: none does, and what is offered is what the library offers.
-/

namespace LogTemplate.Sliced

open Delimiter

def offerCall (settings : Settings) (lines : List Text) (statement : Statement) (call : Call) :
    Except BadSlice (Except Refusal Offer) := do
  match ← headAndMessage call settings.levelType with
  | .error .noLevel => return .ok (.skipped .missingLevel)
  | .error .moreArguments => return .ok (.skipped .extraArguments)
  | .ok (head, message) =>
      match ← ofExpression settings.operandBudget (Text.trim message) with
      | .error cause => return .error (.ofOperandError statement cause)
      | .ok template =>
          let span ← spanOf lines statement
          return .ok (.proposed
            { span, replacement := Formatter.replacement head template, statement, template })

def offer (settings : Settings) (lines : List Text) (statement : Statement) :
    Except BadSlice (Except Refusal Offer) := do
  if statement.code.isEmpty then return .ok (.skipped .emptyStatement)
  else if !isLoggingCall statement.code then return .ok (.skipped .notLoggingCall)
  else
    match ← split? statement.code with
    | none => return .ok (.skipped .notLoggingCall)
    | some call =>
        match (← resolve settings.loggers lines call.receiver).library? with
        | none => return .ok (.skipped .unresolved)
        | some .log4j => return .ok (.skipped .log4j)
        | some .standard =>
            if hasPlaceholder statement.code then return .ok (.skipped .alreadyTemplated)
            else offerCall settings lines statement call

def propose (settings : Settings) (lines : List Text) (trigger : Nat) :
    Except BadSlice (Except Refusal Offer) :=
  if trigger < lines.length then offer settings lines (Statement.locate lines trigger)
  else .ok (.error (.outOfRange trigger lines.length))

def scanFrom (settings : Settings) (lines : List Text) (line : Nat) : Except BadSlice Report := do
  if line < lines.length then
    let statement := Statement.locate lines line
    let past := max statement.last line + 1
    match ← offer settings lines statement with
    | .ok (.proposed proposal) =>
        let report ← scanFrom settings lines past
        return { report with proposals := proposal :: report.proposals }
    | .ok (.skipped _) => scanFrom settings lines (line + 1)
    | .error refusal =>
        let report ← scanFrom settings lines past
        return { report with refusals := refusal :: report.refusals }
  else return { proposals := [], refusals := [] }
termination_by lines.length - line
decreasing_by all_goals omega

def scan (settings : Settings) (lines : List Text) : Except BadSlice Report :=
  scanFrom settings lines 0

/-- A line of a buffer: the bytes of the text from its start up to its stop. -/
def lineAt (buffer : Buffer) (index : Nat) : Except BadSlice Text :=
  if index < buffer.lineCount then
    slice buffer.text (buffer.lineStart index) (buffer.lineStop index)
  else .ok []

def contents (buffer : Buffer) : Except BadSlice (List Text) :=
  (List.range buffer.lineCount).mapM (lineAt buffer)

def proposeIn (settings : Settings) (buffer : Buffer) (trigger : Nat) :
    Except BadSlice (Except Refusal Offer) := do
  propose settings (← contents buffer) trigger

def scanIn (settings : Settings) (buffer : Buffer) : Except BadSlice Report := do
  scan settings (← contents buffer)

variable (settings : Settings) (lines : List Text)

theorem offerCall_eq_ok (statement : Statement) (call : Call) :
    offerCall settings lines statement call =
      .ok (Formatter.offerCall settings lines statement call) := by
  simp only [offerCall, Formatter.offerCall, headAndMessage_eq_ok, bind, Except.bind]
  cases call.headAndMessage settings.levelType with
  | error unfit =>
      cases unfit with
      | noLevel => rfl
      | moreArguments => rfl
  | ok parts =>
      simp only [ofExpression_eq_ok, spanOf_eq_ok]
      cases Template.ofExpression settings.operandBudget parts.2.trim with
      | error cause => rfl
      | ok template => rfl

theorem offer_eq_ok (statement : Statement) :
    offer settings lines statement = .ok (Formatter.offer settings lines statement) := by
  simp only [offer, Formatter.offer, split?_eq_ok, bind, Except.bind]
  split
  · rfl
  · split
    · rfl
    · cases Call.split? statement.code with
      | none => rfl
      | some call =>
          simp only [resolve_eq_ok, offerCall_eq_ok]
          cases (Logger.resolve settings.loggers lines call.receiver).library? with
          | none => rfl
          | some library =>
              cases library with
              | log4j => rfl
              | standard => exact (apply_ite Except.ok _ _ _).symm

theorem propose_eq_ok (trigger : Nat) :
    propose settings lines trigger = .ok (Formatter.propose settings lines trigger) := by
  rw [propose, Formatter.propose, offer_eq_ok]
  exact (apply_ite Except.ok _ _ _).symm

theorem scanFrom_eq_ok (line : Nat) :
    scanFrom settings lines line = .ok (Formatter.scanFrom settings lines line) := by
  fun_induction Formatter.scanFrom settings lines line with
  | case1 line hline statement past proposal hoffer report ih =>
      rw [scanFrom, if_pos hline]
      dsimp only
      rw [offer_eq_ok, hoffer]
      simp only [bind, Except.bind]
      rw [ih]
      rfl
  | case2 line hline statement skip hoffer ih =>
      rw [scanFrom, if_pos hline]
      dsimp only
      rw [offer_eq_ok, hoffer]
      exact ih
  | case3 line hline statement past refusal hoffer report ih =>
      rw [scanFrom, if_pos hline]
      dsimp only
      rw [offer_eq_ok, hoffer]
      simp only [bind, Except.bind]
      rw [ih]
      rfl
  | case4 line hline =>
      rw [scanFrom, if_neg hline]
      rfl

theorem lineAt_eq_ok (buffer : Buffer) (index : Nat) :
    lineAt buffer index = .ok (buffer.lineAt index) := by
  rw [lineAt]
  split
  next hindex =>
    have hline : buffer.lines[index]? = some _ := List.getElem?_eq_getElem hindex
    rw [slice, Buffer.slice?_content hline]
    rfl
  next hindex =>
    have hnone : buffer.lines[index]? = none :=
      List.getElem?_eq_none (Nat.le_of_not_lt hindex)
    rw [Buffer.lineAt, hnone]
    rfl

theorem contents_eq_ok (buffer : Buffer) : contents buffer = .ok buffer.contents := by
  have hlines : lineAt buffer = fun index => pure (buffer.lineAt index) := by
    funext index
    exact lineAt_eq_ok buffer index
  have hcontents : (List.range buffer.lineCount).map buffer.lineAt = buffer.contents := by
    apply List.ext_getElem
    · simp [Buffer.lineCount, Buffer.contents]
    · intro i _ hi
      have hline : i < buffer.lines.length := by simpa [Buffer.contents] using hi
      simp [Buffer.lineAt, Buffer.contents, hline]
  rw [contents, hlines, List.mapM_pure, hcontents]
  rfl

theorem exists_slice_iff {text : Text} {start stop : Nat} :
    (∃ part, slice text start stop = .ok part) ↔
      start ≤ stop ∧ stop ≤ text.byteSize ∧ text.isBoundary start = true ∧
        text.isBoundary stop = true := by
  rw [← Text.exists_slice?_iff]
  cases hslice : text.slice? start stop with
  | none => simp [slice, hslice]
  | some part => simp [slice, hslice]

/-- No slice fails. A slice can be taken between two boundaries that stand in order; the offset that
a search of the bytes finds a delimiter at, and the one behind it, are boundaries; and what is
offered by slices is what is offered, for lines of any kind and for the lines of a buffer. -/
theorem no_slice_fails :
    (∀ (text : Text) (start stop : Nat), (∃ part, slice text start stop = .ok part) ↔
        start ≤ stop ∧ stop ≤ text.byteSize ∧ text.isBoundary start = true ∧
          text.isBoundary stop = true) ∧
      (∀ (text : Text) (start : Nat),
        Bytes.endOfQuoted text.toBytes start = endOfQuoted text start ∧
          ∀ i, endOfQuoted text start = some i → text.OneByteAt i) ∧
      (∀ text : Text, Bytes.endOfGroup text.toBytes = endOfGroup text ∧
        ∀ i, endOfGroup text = some i → text.OneByteAt i) ∧
      (∀ (text : Text) (target : UInt8), target.toNat < 0x80 →
        Bytes.findTopLevel text.toBytes target = findTopLevel text target ∧
          ∀ i, findTopLevel text target = some i → text.OneByteAt i) ∧
      (∀ (settings : Settings) (lines : List Text) (trigger : Nat),
        propose settings lines trigger = .ok (Formatter.propose settings lines trigger) ∧
          scan settings lines = .ok (Formatter.scan settings lines)) ∧
      ∀ (settings : Settings) (buffer : Buffer) (trigger : Nat),
        proposeIn settings buffer trigger =
            .ok (Formatter.propose settings buffer.contents trigger) ∧
          scanIn settings buffer = .ok (Formatter.scan settings buffer.contents) := by
  refine ⟨fun text start stop => exists_slice_iff, ?_, ?_, ?_, ?_, ?_⟩
  · intro text start
    exact ⟨Bytes.endOfQuoted_toBytes text start, fun i => oneByteAt_endOfQuoted⟩
  · intro text
    exact ⟨Bytes.endOfGroup_toBytes text, fun i => oneByteAt_endOfGroup⟩
  · intro text target htarget
    exact ⟨Bytes.findTopLevel_toBytes htarget text, fun i => oneByteAt_findTopLevel htarget⟩
  · intro settings lines trigger
    exact ⟨propose_eq_ok settings lines trigger, scanFrom_eq_ok settings lines 0⟩
  · intro settings buffer trigger
    rw [proposeIn, scanIn, contents_eq_ok]
    exact ⟨propose_eq_ok settings buffer.contents trigger,
      scanFrom_eq_ok settings buffer.contents 0⟩

/-- A call among characters of two bytes. -/
def accentedText : Text :=
  "class É \x7b java.util.logging.Logger log;\n  log.info(\"é, \" + größe); ü();\n\x7d".toList

def accentedProposal : Proposal where
  span := ⟨⟨1, 2⟩, ⟨1, 29⟩⟩
  replacement := "log.log(Level.INFO, \"é, \x7b0\x7d\", größe);".toList
  statement := ⟨"log.info(\"é, \" + größe); ü();".toList, 1, 1⟩
  template := ⟨"\"é, \x7b0\x7d\"".toList, ["größe".toList]⟩

theorem proposeIn_accentedText :
    Bytes.endOfQuoted (Text.toBytes "é\"ü".toList) 1 = some 2 ∧ Text.OneByteAt 2 "é\"ü".toList ∧
      Bytes.endOfGroup (Text.toBytes "(é)ü".toList) = some 3 ∧ Text.OneByteAt 3 "(é)ü".toList ∧
      Bytes.findTopLevel (Text.toBytes "é(ü,),".toList) (UInt8.ofNat ','.toNat) = some 7 ∧
      Text.OneByteAt 7 "é(ü,),".toList ∧
      (¬∃ part, slice "é".toList 1 2 = .ok part) ∧
      proposeIn .default (.ofText accentedText) 1 = .ok (.ok (.proposed accentedProposal)) := by
  obtain ⟨hslice, hquoted, hgroup, htop, -, hbuffer⟩ := no_slice_fails
  have hend : endOfQuoted "é\"ü".toList 1 = some 2 := by decide +kernel
  have hclose : endOfGroup "(é)ü".toList = some 3 := by decide +kernel
  have hcomma : findTopLevel "é(ü,),".toList (UInt8.ofNat ','.toNat) = some 7 := by decide +kernel
  obtain ⟨hbytes, hafter⟩ := htop "é(ü,),".toList (UInt8.ofNat ','.toNat) (by decide)
  have hpropose : Formatter.propose .default (Buffer.ofText accentedText).contents 1 =
      .ok (.proposed accentedProposal) := by
    decide +kernel
  refine ⟨(hquoted _ 1).1.trans hend, (hquoted _ 1).2 2 hend, (hgroup _).1.trans hclose,
    (hgroup _).2 3 hclose, hbytes.trans hcomma, hafter 7 hcomma, ?_, ?_⟩
  · rw [hslice]
    decide +kernel
  · rw [(hbuffer .default (.ofText accentedText) 1).1, hpropose]

end LogTemplate.Sliced
