import LogTemplate.Proofs.Call.Layout
import LogTemplate.Proofs.Delimiter.Literal

/-!
A call inside the arguments of another one. A reader of the outer call passes over the inner one as
a whole, so another call can stand in its place: the outer one is split at the same places, and it
has as many arguments as before.
-/

namespace LogTemplate.Call

open Delimiter

namespace Layout

theorem plain_of_mem_opening (layout : Layout) (hreceiver : isReceiver layout.owner = true)
    (hlevel : isLogLevel layout.level = true) :
    ∀ c ∈ layout.owner ++ '.' :: layout.level, Plain c := by
  intro c hc
  simp only [List.mem_append, List.mem_cons] at hc
  rcases hc with hc | rfl | hc
  · exact plain_of_continuesReceiver (continuesReceiver_of_isReceiver hreceiver c hc)
  · decide
  · exact plain_of_continuesReceiver (continuesReceiver_of_isLogLevel hlevel c hc)

theorem passed_text (layout : Layout) {target : Char} (depth : Nat)
    (hreceiver : isReceiver layout.owner = true) (hlevel : isLogLevel layout.level = true)
    (htarget : target = ')' ∨ target = ',') : Passed target depth layout.text := by
  obtain ⟨hname, hblank, hdot, hparen, hsemicolon⟩ : continuesReceiver target = false ∧
      isBlank target = false ∧ target ≠ '.' ∧ target ≠ '(' ∧ target ≠ ';' := by
    rcases htarget with rfl | rfl
    · decide
    · decide
  have hopening : Passed target depth (layout.owner ++ '.' :: layout.level) := by
    apply passed_of_plain (layout.plain_of_mem_opening hreceiver hlevel)
    intro hmem
    simp only [List.mem_append, List.mem_cons] at hmem
    rcases hmem with hmem | hmem | hmem
    · exact not_mem_of_isReceiver hreceiver hname hmem
    · exact hdot hmem
    · exact not_mem_of_isLogLevel hlevel hname hmem
  have hending : Passed target depth (layout.gap ++ [';']) := by
    apply passed_of_plain
    · intro c hc
      rcases List.mem_append.mp hc with hc | hc
      · exact plain_of_isBlank (layout.gap_blank c hc)
      · obtain rfl := List.mem_singleton.mp hc
        decide
    · intro hmem
      rcases List.mem_append.mp hmem with hmem | hmem
      · exact not_mem_of_allBlank hblank layout.gap_blank hmem
      · exact hsemicolon (List.mem_singleton.mp hmem)
  have harguments := (cutAt_eq_some_iff_passed.mp layout.closed).2
  have hpassed := hopening.append ((harguments.group hparen).append hending)
  simpa [text] using hpassed

end Layout

theorem exists_unfit_iff {call : Call} {levelType : Text} :
    (∃ unfit, call.headAndMessage levelType = .error unfit) ↔
      if call.passesLevel then
        ∀ level message, cutAt ',' call.arguments = some (level, message) → cutAt ',' message ≠ none
      else cutAt ',' call.arguments ≠ none := by
  rw [headAndMessage]
  cases call.passesLevel with
  | true =>
      cases hcut : cutAt ',' call.arguments with
      | none => simp [bind, Except.bind]
      | some parts =>
          obtain ⟨level, message⟩ := parts
          cases hmessage : cutAt ',' message with
          | none => simp [hmessage, bind, Except.bind]
          | some _ => simp [hmessage, bind, Except.bind]
  | false =>
      cases hcut : cutAt ',' call.arguments with
      | none => simp [hcut, bind, Except.bind]
      | some _ => simp [hcut, bind, Except.bind]

section Exchange

variable {u w x y : Text}

theorem cutAt_ne_none_exchange {target : Char} (hmode : (Reader.fresh.run u).mode = .outside)
    (hx : ∀ depth, Passed target depth x) (hy : ∀ depth, Passed target depth y)
    (h : cutAt target (u ++ (x ++ w)) ≠ none) : cutAt target (u ++ (y ++ w)) ≠ none := by
  obtain ⟨⟨before, rest⟩, hcut⟩ := Option.ne_none_iff_exists'.mp h
  rcases cutAt_exchange hmode hx hy hcut with ⟨v, -, -, hother⟩ | ⟨v, -, hother⟩
  · rw [hother]
    exact Option.some_ne_none _
  · rw [hother]
    exact Option.some_ne_none _

theorem exists_unfit_exchange {receiver level levelType : Text}
    (hmode : (Reader.fresh.run u).mode = .outside) (hx : ∀ depth, Passed ',' depth x)
    (hy : ∀ depth, Passed ',' depth y)
    (h : ∃ unfit, headAndMessage ⟨receiver, level, u ++ (y ++ w)⟩ levelType = .error unfit) :
    ∃ unfit, headAndMessage ⟨receiver, level, u ++ (x ++ w)⟩ levelType = .error unfit := by
  have hsame : (⟨receiver, level, u ++ (y ++ w)⟩ : Call).passesLevel =
      (⟨receiver, level, u ++ (x ++ w)⟩ : Call).passesLevel := rfl
  rw [exists_unfit_iff] at h ⊢
  rw [hsame] at h
  split
  next hpasses =>
    rw [if_pos hpasses] at h
    intro first message hcut
    rcases cutAt_exchange hmode hx hy hcut with ⟨v, hu, rfl, hother⟩ | ⟨v, -, hother⟩
    · have hrun : Reader.fresh.run u = Reader.fresh.run v := by
        have hfirst := (cutAt_eq_some_iff_passed.mp hcut).2.run_eq
        rw [hu, Reader.run_append, Reader.fresh, hfirst]
        rfl
      exact cutAt_ne_none_exchange (hrun ▸ hmode) hy hx (h first _ hother)
    · exact h _ message hother
  next hpasses =>
    rw [if_neg hpasses] at h
    exact cutAt_ne_none_exchange hmode hy hx h

/-- The outer call, with another text in the place of one in its arguments. The two texts may also
stand behind the outer call. -/
theorem exists_layout_exchange (layout : Layout) {levelType : Text}
    (hcode : layout.code = u ++ (x ++ w))
    (hopen : layout.owner ++ '.' :: (layout.level ++ ['(']) <+: u)
    (hlevel : isLogLevel layout.level = true) (hreceiver : isReceiver layout.owner = true)
    (hmode : (Reader.fresh.run u).mode = .outside)
    (hx : ∀ target, target = ')' ∨ target = ',' → ∀ depth, Passed target depth x)
    (hy : ∀ target, target = ')' ∨ target = ',' → ∀ depth, Passed target depth y)
    (hhead : ∃ c tail, x = c :: tail ∧ isBlank c = false ∧ c ≠ ';') :
    ∃ other : Layout, other.code = u ++ (y ++ w) ∧ other.call.receiver = layout.call.receiver ∧
      ((∃ unfit, other.call.headAndMessage levelType = .error unfit) →
        ∃ unfit, layout.call.headAndMessage levelType = .error unfit) := by
  obtain ⟨v, rfl⟩ := hopen
  have hinside : layout.arguments ++ ')' :: (layout.gap ++ ';' :: layout.rest) = v ++ (x ++ w) := by
    simpa [Layout.code] using hcode
  have hclosed := layout.closed
  rw [hinside] at hclosed
  have hmodeInside : (Reader.fresh.run v).mode = .outside := by
    have hopened : Reader.fresh.run (layout.owner ++ '.' :: (layout.level ++ ['('])) =
        ⟨.outside, 1⟩ := by
      rw [← List.cons_append, ← List.append_assoc, Reader.run_append, Reader.fresh,
        run_of_plain 0 (layout.plain_of_mem_opening hreceiver hlevel)]
      rfl
    have hwithin : Reader.Within Reader.fresh ⟨.outside, 1⟩ := ⟨rfl, Nat.zero_le 1⟩
    rw [Reader.run_append, hopened] at hmode
    rw [(hwithin.run v).mode, hmode]
  rcases cutAt_exchange hmodeInside (hx ')' (.inl rfl)) (hy ')' (.inl rfl)) hclosed with
    ⟨z, hv, hrest, hother⟩ | ⟨z, harguments, hother⟩
  · -- The call is closed within `u`. Then so is its semicolon, for `x` starts with neither a blank
    -- nor a semicolon.
    obtain ⟨after, hz⟩ : ∃ after, z = layout.gap ++ ';' :: after := by
      obtain ⟨c, tail, rfl, hblank, hsemicolon⟩ := hhead
      rcases List.append_eq_append_iff.mp hrest with ⟨a, ha, htail⟩ | ⟨a, hgap, htail⟩
      · cases a with
        | nil => exact absurd (List.cons.inj htail).1.symm hsemicolon
        | cons d after =>
            obtain ⟨rfl, -⟩ := List.cons.inj htail
            exact ⟨after, ha⟩
      · cases a with
        | nil => exact absurd (List.cons.inj htail).1 hsemicolon
        | cons d a =>
            obtain ⟨rfl, -⟩ := List.cons.inj htail
            rw [layout.gap_blank c (by simp [hgap])] at hblank
            cases hblank
    rw [hz, List.append_assoc, List.cons_append] at hother
    have hsplit := (cutAt_eq_some_iff.mp hother).1
    refine ⟨⟨layout.owner, layout.level, layout.arguments, layout.gap, after ++ (y ++ w),
      layout.dot_not_mem, layout.paren_not_mem_owner, layout.paren_not_mem_level, hsplit ▸ hother,
      layout.gap_blank⟩, ?_, rfl, id⟩
    simp only [Layout.code, ← hsplit]
    simp
  · have hsplit := (cutAt_eq_some_iff.mp hother).1
    refine ⟨⟨layout.owner, layout.level, v ++ (y ++ z), layout.gap, layout.rest, layout.dot_not_mem,
      layout.paren_not_mem_owner, layout.paren_not_mem_level, hsplit ▸ hother, layout.gap_blank⟩,
      ?_, rfl, ?_⟩
    · simp only [Layout.code, ← hsplit]
      simp
    · intro hunfit
      have hexchange := exists_unfit_exchange hmodeInside (hx ',' (.inr rfl)) (hy ',' (.inr rfl))
        hunfit
      rwa [← harguments] at hexchange

end Exchange

end LogTemplate.Call
