import LogTemplate.Call.Basic
import LogTemplate.Call.Shape
import LogTemplate.Proofs.Delimiter.Reader
import LogTemplate.Proofs.Text.Trim
import Mathlib.Data.List.TakeDrop
import Mathlib.Data.Option.Basic

/-!
The layout of a call at the front of a statement: its receiver, level and arguments, the blanks
before its semicolon, and what follows that semicolon. A call can be split off exactly when the
statement has such a layout, and a reader that looks for a semicolon from the start of the call
finds the one that ends it.
-/

namespace LogTemplate

open Delimiter

theorem span_ne_append {c : Char} {u v : Text} (h : c ∉ u) :
    (u ++ c :: v).span (· ≠ c) = (u, c :: v) := by
  have hu : ∀ d ∈ u, decide (d ≠ c) = true := by
    intro d hd
    have hne : d ≠ c := fun heq => h (heq ▸ hd)
    simpa using hne
  rw [List.span_eq_takeWhile_dropWhile, List.takeWhile_append_of_pos hu,
    List.dropWhile_append_of_pos hu]
  simp

theorem eq_append_of_span_ne {c d : Char} {cs u v : Text}
    (h : cs.span (· ≠ c) = (u, d :: v)) : cs = u ++ d :: v ∧ c ∉ u ∧ d = c := by
  rw [List.span_eq_takeWhile_dropWhile] at h
  obtain ⟨htake, hdrop⟩ := Prod.mk.inj h
  refine ⟨?_, ?_, ?_⟩
  · rw [← htake, ← hdrop, List.takeWhile_append_dropWhile]
  · intro hmem
    rw [← htake] at hmem
    simpa using List.mem_takeWhile_imp hmem
  · have hhead := List.head?_dropWhile_not (· ≠ c) cs
    rw [hdrop] at hhead
    simpa using hhead

theorem append_cons_inj {c : Char} {u u' v v' : Text} (hu : c ∉ u) (hu' : c ∉ u')
    (h : u ++ c :: v = u' ++ c :: v') : u = u' ∧ v = v' := by
  have hspan := span_ne_append (v := v) hu
  rw [h, span_ne_append hu'] at hspan
  obtain ⟨rfl, htail⟩ := Prod.mk.inj hspan
  exact ⟨rfl, (List.cons.inj htail).2.symm⟩

theorem continuesReceiver_eq_false_of_isBlank {c : Char} (h : isBlank c = true) :
    continuesReceiver c = false := by
  have hmem : c.toNat ∈ [9, 10, 11, 12, 13, 0x20, 0x85, 0xA0, 0x1680, 0x2000, 0x2001, 0x2002,
      0x2003, 0x2004, 0x2005, 0x2006, 0x2007, 0x2008, 0x2009, 0x200A, 0x2028, 0x2029, 0x202F,
      0x205F, 0x3000] := by
    simp only [isBlank, Bool.or_eq_true, Bool.and_eq_true, decide_eq_true_eq, beq_iff_eq] at h
    simp only [List.mem_cons, List.not_mem_nil, or_false]
    omega
  rw [← Char.ofNat_toNat c]
  generalize c.toNat = n at hmem
  revert n
  decide

theorem isBlank_eq_false_of_continuesReceiver {c : Char} (h : continuesReceiver c = true) :
    isBlank c = false := by
  by_contra hblank
  have hfalse := continuesReceiver_eq_false_of_isBlank (by simpa using hblank)
  simp [h] at hfalse

theorem ne_of_continuesReceiver {c d : Char} (hc : continuesReceiver c = true)
    (hd : continuesReceiver d = false) : c ≠ d := by
  rintro rfl
  simp [hc] at hd

theorem plain_of_continuesReceiver {c : Char} (h : continuesReceiver c = true) : Plain c :=
  ⟨ne_of_continuesReceiver h (by decide), ne_of_continuesReceiver h (by decide),
    ne_of_continuesReceiver h (by decide), ne_of_continuesReceiver h (by decide)⟩

theorem ne_of_isBlank {c d : Char} (hc : isBlank c = true) (hd : isBlank d = false) : c ≠ d := by
  rintro rfl
  simp [hc] at hd

theorem not_mem_of_allBlank {c : Char} {u : Text} (hc : isBlank c = false)
    (hu : Text.AllBlank u) : c ∉ u :=
  fun hmem => ne_of_isBlank (hu c hmem) hc rfl

theorem plain_of_isBlank {c : Char} (h : isBlank c = true) : Plain c :=
  ⟨ne_of_isBlank h (by decide), ne_of_isBlank h (by decide), ne_of_isBlank h (by decide),
    ne_of_isBlank h (by decide)⟩

theorem continuesReceiver_of_isReceiver {name : Text} (h : isReceiver name = true) :
    ∀ c ∈ name, continuesReceiver c = true := by
  cases name with
  | nil => simp
  | cons c cs =>
      simp only [isReceiver, Bool.and_eq_true, List.all_eq_true] at h
      intro d hd
      rcases List.mem_cons.mp hd with rfl | hd
      · simp only [startsReceiver] at h
        simp [continuesReceiver, continuesName, h.1]
      · exact h.2 d hd

theorem continuesReceiver_of_isLogLevel {name : Text} (h : isLogLevel name = true) :
    ∀ c ∈ name, continuesReceiver c = true := by
  have hnames : (logLevels.all fun level => (level.map foldCase).all continuesName) = true := by
    decide
  intro c hc
  obtain ⟨level, hlevel, hsame⟩ := List.any_eq_true.mp h
  have hmap : name.map foldCase = level.map foldCase := by simpa [sameFolded] using hsame
  apply List.all_eq_true.mp (List.all_eq_true.mp hnames level hlevel)
  rw [← hmap]
  exact List.mem_map_of_mem hc

theorem not_mem_of_isReceiver {name : Text} {c : Char} (h : isReceiver name = true)
    (hc : continuesReceiver c = false) : c ∉ name :=
  fun hmem => ne_of_continuesReceiver (continuesReceiver_of_isReceiver h c hmem) hc rfl

theorem not_mem_of_isLogLevel {name : Text} {c : Char} (h : isLogLevel name = true)
    (hc : continuesReceiver c = false) : c ∉ name :=
  fun hmem => ne_of_continuesReceiver (continuesReceiver_of_isLogLevel h c hmem) hc rfl

theorem isBlank_eq_false_of_mem_owner {owner : Text} (h : isReceiver owner = true) :
    ∀ c ∈ owner, isBlank c = false :=
  fun c hc => isBlank_eq_false_of_continuesReceiver (continuesReceiver_of_isReceiver h c hc)

theorem trim_owner {owner : Text} (h : isReceiver owner = true) : Text.trim owner = owner :=
  Text.trim_eq_self (Text.trimmed_of_not_blank (isBlank_eq_false_of_mem_owner h))

theorem isLoggingCall_iff {text : Text} :
    isLoggingCall text = true ↔ ∃ owner level tail,
      text.trim = owner ++ '.' :: (level ++ '(' :: tail) ∧
        isReceiver owner = true ∧ isLogLevel level = true ∧ isCallTail tail = true := by
  constructor
  · intro h
    rw [isLoggingCall] at h
    split at h
    next owner afterDot hdot =>
      split at h
      next level tail hopen =>
        simp only [Bool.and_eq_true] at h
        refine ⟨owner, level, tail, ?_, h.1.1, h.1.2, h.2⟩
        rw [(eq_append_of_span_ne hdot).1, (eq_append_of_span_ne hopen).1]
      next => cases h
    next => cases h
  · rintro ⟨owner, level, tail, htext, hreceiver, hlevel, htail⟩
    have hdot : '.' ∉ owner := not_mem_of_isReceiver hreceiver (by decide)
    have hparen : '(' ∉ level := not_mem_of_isLogLevel hlevel (by decide)
    rw [isLoggingCall, htext, span_ne_append hdot]
    simp only [span_ne_append hparen, hreceiver, hlevel, htail, Bool.and_self]

namespace Call

/-- How a call stands at the front of a statement. -/
structure Layout where
  owner : Text
  level : Text
  arguments : Text
  /-- The blanks between the closing parenthesis and the semicolon. -/
  gap : Text
  rest : Text
  dot_not_mem : '.' ∉ owner
  paren_not_mem_owner : '(' ∉ owner
  paren_not_mem_level : '(' ∉ level
  /-- The arguments end at the first parenthesis that closes no group of theirs. -/
  closed : cutAt ')' (arguments ++ ')' :: (gap ++ ';' :: rest)) =
    some (arguments, gap ++ ';' :: rest)
  gap_blank : Text.AllBlank gap

namespace Layout

def call (layout : Layout) : Call where
  receiver := Text.trim layout.owner
  level := layout.level
  arguments := layout.arguments

/-- The text of the call, from its receiver to its semicolon. -/
def text (layout : Layout) : Text :=
  layout.owner ++ '.' ::
    (layout.level ++ '(' :: (layout.arguments ++ ')' :: (layout.gap ++ [';'])))

def code (layout : Layout) : Text :=
  layout.owner ++ '.' ::
    (layout.level ++ '(' :: (layout.arguments ++ ')' :: (layout.gap ++ ';' :: layout.rest)))

theorem text_append_rest (layout : Layout) : layout.text ++ layout.rest = layout.code := by
  simp [text, code]

end Layout

/-- A call can be split off exactly when the statement has the layout of one. -/
theorem split?_eq_some_iff {code : Text} {call : Call} :
    split? code = some call ↔ ∃ layout : Layout, layout.code = code ∧ layout.call = call := by
  constructor
  · intro h
    simp only [split?] at h
    split at h
    next owner afterDot hdot =>
      obtain ⟨hcode, hmem, -⟩ := eq_append_of_span_ne hdot
      split at h
      next => simp at h
      next hparen =>
        split at h
        next level inside hopen =>
          obtain ⟨hafter, hlevel, -⟩ := eq_append_of_span_ne hopen
          simp only [Option.bind_eq_bind, Option.bind_eq_some_iff, Option.guard_eq_some'] at h
          obtain ⟨⟨arguments, rest⟩, hclose, -, hhead, hcall⟩ := h
          obtain ⟨gap, hgap, hrest⟩ := Text.exists_blank_append_trimStart rest
          obtain ⟨after, hafterGap⟩ : ∃ after, rest.trimStart = ';' :: after :=
            List.head?_eq_some_iff.mp hhead
          rw [hafterGap] at hrest
          have hinside := (cutAt_eq_some_iff.mp hclose).1
          have hclosed : cutAt ')' (arguments ++ ')' :: (gap ++ ';' :: after)) =
              some (arguments, gap ++ ';' :: after) := by
            rw [← hrest, ← hinside, hclose]
          refine ⟨⟨owner, level, arguments, gap, after, hmem, by simpa using hparen, hlevel,
            hclosed, hgap⟩, ?_, ?_⟩
          · rw [hcode, hafter, hinside, hrest, Layout.code]
          · exact Option.some.inj hcall
        next => simp at h
    next => simp at h
  · rintro ⟨layout, rfl, rfl⟩
    have hgap : (layout.gap ++ ';' :: layout.rest : Text).trimStart.head? = some ';' := by
      rw [Text.trimStart_blank_append layout.gap_blank]
      rfl
    rw [split?, Layout.code, span_ne_append layout.dot_not_mem]
    simp only [List.contains_eq_mem, layout.paren_not_mem_owner, decide_false, Bool.false_eq_true,
      if_false, span_ne_append layout.paren_not_mem_level, layout.closed, Option.bind_eq_bind,
      Option.bind_some, Option.bind_eq_some_iff, Option.guard_eq_some']
    exact ⟨(), hgap, rfl⟩

namespace Layout

theorem shape_of_isLoggingCall (layout : Layout) (htrim : Text.Trimmed layout.code)
    (h : isLoggingCall layout.code = true) :
    isReceiver layout.owner = true ∧ isLogLevel layout.level = true ∧
      isCallTail (layout.arguments ++ ')' :: (layout.gap ++ ';' :: layout.rest)) = true := by
  rw [isLoggingCall, Text.trim_eq_self htrim, code, span_ne_append layout.dot_not_mem] at h
  simp only [span_ne_append layout.paren_not_mem_level, Bool.and_eq_true] at h
  exact ⟨h.1.1, h.1.2, h.2⟩

private theorem opening_plain (layout : Layout) {blanks : Text} (hblanks : Text.AllBlank blanks)
    (hreceiver : isReceiver layout.owner = true) (hlevel : isLogLevel layout.level = true) :
    ∀ c ∈ blanks ++ (layout.owner ++ '.' :: layout.level), Plain c ∧ c ≠ ';' := by
  intro c hc
  simp only [List.mem_append, List.mem_cons] at hc
  rcases hc with hc | hc | rfl | hc
  · exact ⟨plain_of_isBlank (hblanks c hc), ne_of_isBlank (hblanks c hc) (by decide)⟩
  · have hname := continuesReceiver_of_isReceiver hreceiver c hc
    exact ⟨plain_of_continuesReceiver hname, ne_of_continuesReceiver hname (by decide)⟩
  · decide
  · have hname := continuesReceiver_of_isLogLevel hlevel c hc
    exact ⟨plain_of_continuesReceiver hname, ne_of_continuesReceiver hname (by decide)⟩

/-- A reader that starts before a call passes over it up to its semicolon, and is then outside
literals and groups again. -/
theorem reads_to_semicolon (layout : Layout) {blanks : Text} (hblanks : Text.AllBlank blanks)
    (hreceiver : isReceiver layout.owner = true) (hlevel : isLogLevel layout.level = true) :
    Reader.search (· = ';') Reader.fresh (blanks ++ (layout.owner ++ '.' :: (layout.level ++ '(' ::
        (layout.arguments ++ ')' :: layout.gap)))) = none ∧
      Reader.fresh.run (blanks ++ (layout.owner ++ '.' :: (layout.level ++ '(' ::
        (layout.arguments ++ ')' :: layout.gap)))) = Reader.fresh := by
  have hopening := opening_plain layout hblanks hreceiver hlevel
  obtain ⟨-, hnone, hrun⟩ := cutAt_eq_some_iff.mp layout.closed
  have hsplit : blanks ++ (layout.owner ++ '.' :: (layout.level ++ '(' ::
      (layout.arguments ++ ')' :: layout.gap))) =
      (blanks ++ (layout.owner ++ '.' :: layout.level)) ++
        (['('] ++ (layout.arguments ++ ([')'] ++ layout.gap))) := by
    simp
  have hopenRun := run_of_plain 0 fun c hc => (hopening c hc).1
  have hopenSearch := search_eq_none_of_not_mem Reader.fresh fun hmem => (hopening ';' hmem).2 rfl
  -- Inside the parentheses the reader is one group deeper than the one that looks for their end.
  have hargsRun := run_deepen_of_search_closing (k := 1) hnone
  have hargsSearch : Reader.search (· = ';') (Reader.fresh.deepen 1) layout.arguments = none :=
    search_deepen_eq_none Nat.one_pos hnone
  have hgapRun := run_of_plain 0 fun c hc => plain_of_isBlank (layout.gap_blank c hc)
  have hgapSearch := search_eq_none_of_not_mem Reader.fresh
    (not_mem_of_allBlank (by decide : isBlank ';' = false) layout.gap_blank)
  rw [hrun] at hargsRun
  have hafterOpen : Reader.fresh.run ['('] = Reader.fresh.deepen 1 := rfl
  have hafterClose : (Reader.fresh.deepen 1).run [')'] = Reader.fresh := rfl
  rw [hsplit]
  constructor
  · rw [search_append_of_none _ hopenSearch, Reader.fresh, hopenRun, ← Reader.fresh,
      search_append_of_none _ (by rfl), hafterOpen, search_append_of_none _ hargsSearch, hargsRun,
      search_append_of_none _ (by rfl), hafterClose, hgapSearch]
    rfl
  · rw [Reader.run_append, Reader.fresh, hopenRun, ← Reader.fresh, Reader.run_append, hafterOpen,
      Reader.run_append, hargsRun, Reader.run_append, hafterClose]
    exact hgapRun

end Layout

theorem cases_of_headAndMessage {call : Call} {levelType head message : Text}
    (h : call.headAndMessage levelType = .ok (head, message)) :
    cutAt ',' message = none ∧
      ((call.passesLevel = true ∧ ∃ level, cutAt ',' call.arguments = some (level, message) ∧
          head = call.receiver ++ '.' :: (call.level ++ '(' :: level)) ∨
        (call.passesLevel = false ∧ message = call.arguments ∧
          head = call.receiver ++ ".log(".toList ++ levelType ++
            '.' :: call.level.map toCapital)) := by
  have hmessage : ∀ head' message' : Text,
      (if (cutAt ',' message').isSome then .error .moreArguments else .ok (head', message') :
        Except Unfit (Text × Text)) = .ok (head, message) →
      cutAt ',' message = none ∧ head' = head ∧ message' = message := by
    intro head' message' hif
    split at hif
    · simp at hif
    · rename_i hnone
      obtain ⟨rfl, rfl⟩ := Prod.mk.inj (Except.ok.inj hif)
      exact ⟨by simpa using hnone, rfl, rfl⟩
  rw [headAndMessage] at h
  by_cases hlevel : call.passesLevel = true
  · rw [if_pos hlevel] at h
    cases hcut : cutAt ',' call.arguments with
    | none => simp [hcut, bind, Except.bind] at h
    | some parts =>
        obtain ⟨level, rest⟩ := parts
        simp only [hcut, bind, Except.bind] at h
        obtain ⟨hnone, rfl, rfl⟩ := hmessage _ _ h
        exact ⟨hnone, .inl ⟨hlevel, level, rfl, rfl⟩⟩
  · rw [if_neg hlevel] at h
    simp only [bind, Except.bind] at h
    obtain ⟨hnone, rfl, rfl⟩ := hmessage _ _ h
    exact ⟨hnone, .inr ⟨by simpa using hlevel, rfl, rfl⟩⟩

end Call

end LogTemplate
