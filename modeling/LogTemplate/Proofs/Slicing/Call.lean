import LogTemplate.Proofs.Call.Layout
import LogTemplate.Proofs.Delimiter.Boundary
import LogTemplate.Proposal.Formatter

namespace LogTemplate

/-- A slice that cannot be taken: its offsets stand in the wrong order, pass the end of the text or
cut a character. -/
structure BadSlice where
  text : Text
  start : Nat
  stop : Nat
  deriving DecidableEq, Repr

namespace Sliced

open Delimiter

def slice (text : Text) (start stop : Nat) : Except BadSlice Text :=
  (text.slice? start stop).elim (.error ⟨text, start, stop⟩) .ok

def sliceFrom (text : Text) (start : Nat) : Except BadSlice Text :=
  slice text start text.byteSize

/-- The offset of the first character that satisfies a test. -/
def find? (test : Char → Bool) : Text → Option Nat
  | [] => none
  | c :: cs => if test c then some 0 else (find? test cs).map (c.utf8Size + ·)

/-- The call whose first dot and opening parenthesis stand at two offsets. -/
def callAt (code : Text) (dot opening : Nat) : Except BadSlice (Option Call) := do
  let inside ← sliceFrom code (opening + 1)
  match findTopLevel inside (UInt8.ofNat ')'.toNat) with
  | none => return none
  | some within =>
      let closing := opening + 1 + within
      let rest ← sliceFrom code (closing + 1)
      if rest.trimStart.head? = some ';' then
        let owner ← slice code 0 dot
        let level ← slice code (dot + 1) opening
        let arguments ← slice code (opening + 1) closing
        return some { receiver := owner.trim, level, arguments }
      else return none

def split? (code : Text) : Except BadSlice (Option Call) :=
  match find? (· = '.') code, find? (· = '(') code with
  | some dot, some opening => if opening < dot then .ok none else callAt code dot opening
  | _, _ => .ok none

/-- A head and its message, unless a comma follows the message. -/
def headWith (head message : Text) : Except Call.Unfit (Text × Text) :=
  if (findTopLevel message (UInt8.ofNat ','.toNat)).isSome then .error .moreArguments
  else .ok (head, message)

def headAndMessage (call : Call) (levelType : Text) :
    Except BadSlice (Except Call.Unfit (Text × Text)) :=
  if call.passesLevel then
    match findTopLevel call.arguments (UInt8.ofNat ','.toNat) with
    | none => .ok (.error .noLevel)
    | some comma => do
        let level ← slice call.arguments 0 comma
        let message ← sliceFrom call.arguments (comma + 1)
        return headWith (call.receiver ++ '.' :: (call.level ++ '(' :: level)) message
  else
    .ok (headWith (call.receiver ++ ".log(".toList ++ levelType ++ '.' :: call.level.map toCapital)
      call.arguments)

/-- The size of a line less that of the line without its spaces and tabs in front. -/
def indentation (line : Text) : Nat :=
  line.byteSize - Text.byteSize (line.dropWhile fun c => c == ' ' || c == '\t')

def endColumn (line : Text) (start : Nat) : Except BadSlice Nat := do
  let tail ← sliceFrom line start
  match findTopLevel tail (UInt8.ofNat ';'.toNat) with
  | some within => return start + within + 1
  | none => return line.trimEnd.byteSize

def spanOf (lines : List Text) (statement : Statement) : Except BadSlice Span := do
  let start := indentation (Formatter.lineAt lines statement.first)
  let searchStart := if statement.last = statement.first then start else 0
  let stop ← endColumn (Formatter.lineAt lines statement.last) searchStart
  return { start := ⟨statement.first, start⟩, stop := ⟨statement.last, stop⟩ }

section Slice

variable {text u part v : Text} {start stop : Nat}

theorem slice_eq_ok (htext : text = u ++ (part ++ v)) (hstart : start = u.byteSize)
    (hstop : stop = (u ++ part).byteSize) : slice text start stop = .ok part := by
  have hslice : text.slice? start stop = some part :=
    Text.slice?_eq_some_iff.mpr ⟨u, v, htext, hstart.symm, hstop.symm⟩
  rw [slice, hslice]
  rfl

theorem slice_front (htext : text = part ++ v) : slice text 0 part.byteSize = .ok part :=
  slice_eq_ok (u := []) htext rfl rfl

theorem sliceFrom_eq_ok (htext : text = u ++ v) (hstart : start = u.byteSize) :
    sliceFrom text start = .ok v :=
  slice_eq_ok (v := []) (by simpa using htext) hstart (by rw [htext])

theorem slice_behind {c : Char} (htext : text = u ++ c :: (part ++ v)) (hc : c.toNat < 0x80)
    (hstop : stop = (u ++ c :: part).byteSize) : slice text (u.byteSize + 1) stop = .ok part := by
  apply slice_eq_ok (u := u ++ [c]) (v := v)
  · rw [htext, List.append_assoc, List.singleton_append]
  · rw [Text.byteSize_append, Text.byteSize_cons, utf8Size_of_lt hc, Text.byteSize_nil]
  · rw [hstop, List.append_assoc, List.singleton_append]

theorem sliceFrom_behind {c : Char} (htext : text = u ++ c :: v) (hc : c.toNat < 0x80) :
    sliceFrom text (u.byteSize + 1) = .ok v :=
  slice_behind (v := []) (by simpa using htext) hc (by rw [htext])

theorem byteSize_sub (htext : text = u ++ v) : text.byteSize - v.byteSize = u.byteSize := by
  rw [htext, Text.byteSize_append, Nat.add_sub_cancel]

end Slice

section Find

variable {c : Char} {text : Text}

theorem find?_append {u : Text} (v : Text) (h : c ∉ u) :
    find? (· = c) (u ++ c :: v) = some u.byteSize := by
  induction u with
  | nil => simp [find?]
  | cons d u ih =>
      rw [List.mem_cons, not_or] at h
      rw [List.cons_append, find?, if_neg (by simpa using Ne.symm h.1), ih h.2]
      rfl

theorem find?_eq_none (h : c ∉ text) : find? (· = c) text = none := by
  induction text with
  | nil => rfl
  | cons d text ih =>
      rw [List.mem_cons, not_or] at h
      rw [find?, if_neg (by simpa using Ne.symm h.1), ih h.2]
      rfl

theorem span_eq_self (h : c ∉ text) : text.span (· ≠ c) = (text, []) := by
  have hall : ∀ d ∈ text, decide (d ≠ c) = true := by
    intro d hd
    rw [decide_eq_true_eq]
    rintro rfl
    exact h hd
  rw [List.span_eq_takeWhile_dropWhile, List.takeWhile_eq_self_iff.mpr hall,
    List.dropWhile_eq_nil_iff.mpr hall]

end Find

section Split

variable {owner level inside : Text}

theorem split?_of_paren_mem {afterDot : Text} (hdot : '.' ∉ owner) (h : '(' ∈ owner) :
    split? (owner ++ '.' :: afterDot) = .ok none := by
  obtain ⟨u, v, rfl, hu⟩ := List.eq_append_cons_of_mem h
  have hopening : find? (· = '(') ((u ++ '(' :: v) ++ '.' :: afterDot) =
      some (Text.byteSize u) := by
    rw [List.append_assoc, List.cons_append]
    exact find?_append _ hu
  have hlt : Text.byteSize u < Text.byteSize (u ++ '(' :: v) :=
    (Text.oneByteAt_append u v rfl).lt_byteSize
  rw [split?, find?_append _ hdot, hopening]
  exact if_pos hlt

theorem callAt_append (owner level inside : Text) :
    callAt (owner ++ '.' :: (level ++ '(' :: inside)) owner.byteSize
        (owner ++ '.' :: level).byteSize =
      .ok ((cutAt ')' inside).bind fun (arguments, rest) =>
        if rest.trimStart.head? = some ';' then some { receiver := owner.trim, level, arguments }
        else none) := by
  generalize hcode : owner ++ '.' :: (level ++ '(' :: inside) = code
  have hopening : code = (owner ++ '.' :: level) ++ '(' :: inside := by simp [← hcode]
  rw [callAt, sliceFrom_behind hopening (by decide)]
  simp only [bind, Except.bind, findTopLevel_eq_cutAt (c := ')') (by decide)]
  cases hcut : cutAt ')' inside with
  | none => rfl
  | some parts =>
      obtain ⟨arguments, rest⟩ := parts
      have hinside : inside = arguments ++ ')' :: rest := (cutAt_eq_some_iff.mp hcut).1
      have hclosing : (owner ++ '.' :: level).byteSize + 1 + Text.byteSize arguments =
          ((owner ++ '.' :: level) ++ '(' :: arguments).byteSize := by
        rw [Text.byteSize_append _ ('(' :: arguments), Text.byteSize_cons, Nat.add_assoc]
        rfl
      have hrest : sliceFrom code (((owner ++ '.' :: level) ++ '(' :: arguments).byteSize + 1) =
          .ok rest :=
        sliceFrom_behind (by simp [hopening, hinside]) (by decide : ')'.toNat < 0x80)
      have howner : slice code 0 owner.byteSize = .ok owner :=
        slice_front hcode.symm
      have hlevel : slice code (owner.byteSize + 1) (owner ++ '.' :: level).byteSize = .ok level :=
        slice_behind hcode.symm (by decide) rfl
      have harguments : slice code ((owner ++ '.' :: level).byteSize + 1)
          ((owner ++ '.' :: level) ++ '(' :: arguments).byteSize = .ok arguments :=
        slice_behind (by rw [hopening, hinside]) (by decide) rfl
      simp only [Option.map_some, hclosing, hrest, Option.bind_some]
      split
      · rw [howner, hlevel, harguments]
        rfl
      · rfl

theorem split?_append (hdot : '.' ∉ owner) (howner : '(' ∉ owner) (hlevel : '(' ∉ level) :
    split? (owner ++ '.' :: (level ++ '(' :: inside)) =
      .ok (Call.split? (owner ++ '.' :: (level ++ '(' :: inside))) := by
  have hopening : find? (· = '(') ((owner ++ '.' :: level) ++ '(' :: inside) =
      some (owner ++ '.' :: level).byteSize :=
    find?_append inside (by simp [howner, hlevel])
  rw [List.append_assoc, List.cons_append] at hopening
  have hle : ¬(owner ++ '.' :: level).byteSize < owner.byteSize := by
    rw [Text.byteSize_append]
    omega
  rw [split?, find?_append _ hdot, hopening, Call.split?, span_ne_append hdot]
  simp only [if_neg hle, callAt_append, List.contains_eq_mem, howner, decide_false,
    Bool.false_eq_true, if_false, span_ne_append hlevel]
  congr 2
  funext parts
  rw [guard]
  split
  · rfl
  · rfl

theorem split?_eq_ok (code : Text) : split? code = .ok (Call.split? code) := by
  by_cases hmem : '.' ∈ code
  · obtain ⟨owner, afterDot, rfl, hdot⟩ := List.eq_append_cons_of_mem hmem
    by_cases howner : '(' ∈ owner
    · rw [split?_of_paren_mem hdot howner, Call.split?, span_ne_append hdot]
      simp [howner]
    · by_cases hafter : '(' ∈ afterDot
      · obtain ⟨level, inside, rfl, hlevel⟩ := List.eq_append_cons_of_mem hafter
        exact split?_append hdot howner hlevel
      · rw [split?, find?_append _ hdot, find?_eq_none (by simp [howner, hafter]), Call.split?,
          span_ne_append hdot]
        simp only [span_eq_self hafter, ite_self]
  · rw [split?, find?_eq_none hmem, Call.split?, span_eq_self hmem]

end Split

theorem headWith_eq (head message : Text) :
    headWith head message =
      if (cutAt ',' message).isSome then .error .moreArguments else .ok (head, message) := by
  rw [headWith, findTopLevel_eq_cutAt (c := ',') (by decide), Option.isSome_map]

theorem headAndMessage_eq_ok (call : Call) (levelType : Text) :
    headAndMessage call levelType = .ok (call.headAndMessage levelType) := by
  rw [headAndMessage, Call.headAndMessage]
  split
  · rw [findTopLevel_eq_cutAt (c := ',') (by decide)]
    cases hcut : cutAt ',' call.arguments with
    | none => rfl
    | some parts =>
        obtain ⟨level, message⟩ := parts
        have harguments := (cutAt_eq_some_iff.mp hcut).1
        have hlevel : slice call.arguments 0 (Text.byteSize level) = .ok level :=
          slice_front harguments
        have hmessage : sliceFrom call.arguments (Text.byteSize level + 1) = .ok message :=
          sliceFrom_behind harguments (by decide)
        simp only [Option.map_some, hlevel, hmessage, bind, Except.bind, headWith_eq]
        rfl
  · rw [headWith_eq]
    rfl

theorem indentation_eq (line : Text) : indentation line = Formatter.indentation line :=
  byteSize_sub (List.takeWhile_append_dropWhile ..).symm

theorem isBoundary_indentation (line : Text) :
    line.isBoundary (Formatter.indentation line) = true :=
  Text.isBoundary_iff.mpr ⟨_, _, (List.takeWhile_append_dropWhile ..).symm, rfl⟩

theorem endColumn_eq_ok {line : Text} {start : Nat} (h : line.isBoundary start = true) :
    endColumn line start = .ok (Formatter.endColumn line start) := by
  obtain ⟨before, after, rfl, rfl⟩ := Text.isBoundary_iff.mp h
  rw [endColumn, sliceFrom_eq_ok rfl rfl, Formatter.endColumn, Text.splitFrom_byteSize_append]
  simp only [bind, Except.bind, findTopLevel_eq_cutAt (c := ';') (by decide)]
  cases cutAt ';' after with
  | none => rfl
  | some parts => rfl

theorem spanOf_eq_ok (lines : List Text) (statement : Statement) :
    spanOf lines statement = .ok (Formatter.spanOf lines statement) := by
  have hstart : (Formatter.lineAt lines statement.last).isBoundary
      (if statement.last = statement.first then
        Formatter.indentation (Formatter.lineAt lines statement.first) else 0) = true := by
    split
    next hlast =>
      rw [hlast]
      exact isBoundary_indentation _
    next => exact Text.isBoundary_iff.mpr ⟨[], _, rfl, rfl⟩
  simp only [spanOf, indentation_eq, endColumn_eq_ok hstart, bind, Except.bind]
  rfl

end Sliced

end LogTemplate
