import LogTemplate.Settings.Basic
import Mathlib.Data.List.TakeDrop

namespace LogTemplate.Logger

variable {types : LoggerTypes} {lines header body : List Text} {line type receiver part text : Text}
  {library : Library} {imported : Option Library} {resolution : Resolution} {d : Nat}

/-- The first place of a part in a text, by what stands before it and after it. -/
structure FirstPlace (part text before after : Text) : Prop where
  text_eq : text = before ++ (part ++ after)
  first : ∀ u v, text = u ++ (part ++ v) → before.length ≤ u.length

/-- The text `after` follows one of the places of a part: the first one, or one in the text that
follows the first. A place that reaches into an earlier one is none of them. -/
inductive Follows (part : Text) : Text → Text → Prop where
  | first {text before after : Text} (place : FirstPlace part text before after) :
      Follows part text after
  | further {text before rest after : Text} (place : FirstPlace part text before rest)
      (follows : Follows part rest after) : Follows part text after

/-- The line declares a variable with a type: at one of the places of the two, the name of the
variable does not go on. -/
def Declares (type receiver line : Text) : Prop :=
  ∃ after, Follows (declaration type receiver) (normalize line) after ∧
    after.head?.any continuesName = false

/-- The names that a variable may be declared with. -/
def typeNames (types : LoggerTypes) : List Text :=
  [types.standard, types.log4j, simpleName types.standard, simpleName types.log4j]

/-- The number of the first line with an opening brace, or that of all lines. -/
def headerEnd (lines : List Text) : Nat :=
  lines.findIdx fun line => line.contains '{'

/-- The line is the import of a library. A line that imports the loggers of both is one of the
standard library. -/
def Imports (types : LoggerTypes) : Library → Text → Prop
  | .standard, line => normalize line = importOf types.standard
  | .log4j, line =>
      normalize line = importOf types.log4j ∧ normalize line ≠ importOf types.standard

/-- The library of the last import among some lines, if there is one. -/
inductive LastImport (types : LoggerTypes) (header : List Text) : Option Library → Prop where
  | none (h : ∀ line ∈ header, ∀ library, ¬Imports types library line) :
      LastImport types header none
  | some {above below : List Text} {line : Text} {library : Library}
      (header_eq : header = above ++ line :: below) (imports : Imports types library line)
      (last : ∀ other ∈ below, ∀ library, ¬Imports types library other) :
      LastImport types header (some library)

/-- Line `d` is the first one from the end of the header on that declares the variable. -/
structure Decides (types : LoggerTypes) (lines : List Text) (receiver : Text) (d : Nat)
    (line : Text) : Prop where
  headerEnd_le : headerEnd lines ≤ d
  getElem?_eq : lines[d]? = some line
  declared : ∃ type ∈ typeNames types, Declares type receiver line
  first : ∀ j other, headerEnd lines ≤ j → j < d → lines[j]? = some other →
    ¬∃ type ∈ typeNames types, Declares type receiver other

/-- What is known of a variable, by the line that decides. The full name of the standard type comes
first, then that of the other type, and the short names last. -/
inductive Decision (types : LoggerTypes) (lines : List Text) (receiver : Text) :
    Resolution → Prop where
  | undeclared (h : ∀ j line, headerEnd lines ≤ j → lines[j]? = some line →
        ¬∃ type ∈ typeNames types, Declares type receiver line) :
      Decision types lines receiver .unresolved
  | standard {d : Nat} {line : Text} (decides : Decides types lines receiver d line)
      (standard : Declares types.standard receiver line) :
      Decision types lines receiver (.declared .standard)
  | log4j {d : Nat} {line : Text} (decides : Decides types lines receiver d line)
      (standard : ¬Declares types.standard receiver line)
      (log4j : Declares types.log4j receiver line) :
      Decision types lines receiver (.declared .log4j)
  | imported {d : Nat} {line : Text} {library : Library}
      (decides : Decides types lines receiver d line)
      (standard : ¬Declares types.standard receiver line)
      (log4j : ¬Declares types.log4j receiver line)
      (lastImport : LastImport types (lines.take (headerEnd lines)) (some library)) :
      Decision types lines receiver (.imported library)
  | notImported {d : Nat} {line : Text} (decides : Decides types lines receiver d line)
      (standard : ¬Declares types.standard receiver line)
      (log4j : ¬Declares types.log4j receiver line)
      (lastImport : LastImport types (lines.take (headerEnd lines)) none) :
      Decision types lines receiver .unresolved

section Places

theorem declaresFrom_length_append (part u v : Text) :
    declaresFrom part u.length (u ++ v) = declaresFrom part 0 v := by
  induction u with
  | nil => rfl
  | cons c u ih => rw [List.cons_append, List.length_cons, declaresFrom, ih]

theorem declaresFrom_append_self (hpart : part ≠ []) (after : Text) :
    declaresFrom part 0 (part ++ after) =
      (!after.head?.any continuesName || declaresFrom part 0 after) := by
  obtain ⟨c, part, rfl⟩ := List.exists_cons_of_ne_nil hpart
  have hfound : (c :: part).isPrefixOf (c :: (part ++ after)) = true :=
    List.isPrefixOf_iff_prefix.mpr ⟨after, rfl⟩
  have hskip : declaresFrom (c :: part) ((c :: part).length - 1) (part ++ after) =
      declaresFrom (c :: part) 0 after := declaresFrom_length_append (c :: part) part after
  have hdrop : ((c :: part) ++ after).drop (c :: part).length = after := List.drop_left
  rw [List.cons_append] at hdrop ⊢
  rw [declaresFrom, if_pos hfound, hskip, hdrop]
  cases hhead : after.head? with
  | none => simp
  | some d => cases hd : continuesName d <;> simp [hd]

theorem FirstPlace.declaresFrom_eq {before after : Text} (h : FirstPlace part text before after) :
    declaresFrom part 0 text = declaresFrom part 0 (part ++ after) := by
  induction before generalizing text with
  | nil => rw [h.text_eq, List.nil_append]
  | cons c before ih =>
      obtain ⟨rfl, hfirst⟩ := h
      have hmissed : ¬part.isPrefixOf (c :: (before ++ (part ++ after))) = true := by
        intro hfound
        obtain ⟨v, hv⟩ := List.isPrefixOf_iff_prefix.mp hfound
        exact absurd (hfirst [] v hv.symm) (by simp)
      rw [List.cons_append, declaresFrom, if_neg hmissed]
      apply ih
      refine ⟨rfl, fun u v huv => ?_⟩
      have hle := hfirst (c :: u) v (by rw [List.cons_append, huv, List.cons_append])
      simpa using hle

theorem exists_firstPlace_or (part text : Text) :
    (∃ before after, FirstPlace part text before after) ∨ declaresFrom part 0 text = false := by
  induction text with
  | nil => exact .inr rfl
  | cons c text ih =>
      by_cases hfound : part.isPrefixOf (c :: text) = true
      · obtain ⟨after, hafter⟩ := List.isPrefixOf_iff_prefix.mp hfound
        exact .inl ⟨[], after, hafter.symm, fun u v _ => Nat.zero_le _⟩
      · rcases ih with ⟨before, after, hplace⟩ | hnone
        · refine .inl ⟨c :: before, after, by rw [hplace.text_eq, List.cons_append], ?_⟩
          intro u v huv
          cases u with
          | nil => exact absurd (List.isPrefixOf_iff_prefix.mpr ⟨v, huv.symm⟩) hfound
          | cons d u => exact Nat.succ_le_succ (hplace.first u v (List.cons.inj huv).2)
        · refine .inr ?_
          rw [declaresFrom, if_neg hfound, hnone]

theorem declaresFrom_of_follows {after : Text} (hpart : part ≠ []) (h : Follows part text after)
    (hafter : after.head?.any continuesName = false) : declaresFrom part 0 text = true := by
  induction h with
  | first hplace =>
      rw [hplace.declaresFrom_eq, declaresFrom_append_self hpart, hafter]
      rfl
  | further hplace _ ih =>
      rw [hplace.declaresFrom_eq, declaresFrom_append_self hpart, ih hafter, Bool.or_true]

theorem exists_follows_of_declaresFrom (hpart : part ≠ []) (h : declaresFrom part 0 text = true) :
    ∃ after, Follows part text after ∧ after.head?.any continuesName = false := by
  induction hlength : text.length using Nat.strongRecOn generalizing text with
  | ind n ih =>
      rcases exists_firstPlace_or part text with ⟨before, after, hplace⟩ | hnone
      · rw [hplace.declaresFrom_eq, declaresFrom_append_self hpart, Bool.or_eq_true] at h
        rcases h with hends | hrest
        · exact ⟨after, .first hplace, by simpa using hends⟩
        · have hpos : 0 < part.length := List.length_pos_iff.mpr hpart
          have hlt : after.length < n := by
            rw [← hlength, hplace.text_eq, List.length_append, List.length_append]
            omega
          obtain ⟨rest, hfollows, hends⟩ := ih after.length hlt hrest rfl
          exact ⟨rest, .further hplace hfollows, hends⟩
      · rw [hnone] at h
        cases h

theorem declares_iff :
    declares (normalize line) (declaration type receiver) = true ↔
      Declares type receiver line := by
  have hne : declaration type receiver ≠ [] := by simp [declaration]
  constructor
  · exact exists_follows_of_declaresFrom hne
  · rintro ⟨after, hfollows, hafter⟩
    exact declaresFrom_of_follows hne hfollows hafter

instance : Decidable (Declares type receiver line) :=
  decidable_of_iff _ declares_iff

end Places

theorem importedBy_eq_some_iff :
    importedBy types line = some library ↔ Imports types library line := by
  cases library with
  | standard => simp [importedBy, Imports]
  | log4j =>
      simp only [importedBy, Imports]
      split
      · simp [*]
      · simp [*]

theorem importedBy_eq_none_iff :
    importedBy types line = none ↔ ∀ library, ¬Imports types library line := by
  rw [Option.eq_none_iff_forall_ne_some]
  simp only [Ne, importedBy_eq_some_iff]

theorem lastImport_eq_iff :
    lastImport types header = imported ↔ LastImport types header imported := by
  rw [lastImport]
  constructor
  · intro h
    cases imported with
    | none =>
        apply LastImport.none
        intro line hline
        apply importedBy_eq_none_iff.mp
        exact List.findSome?_eq_none_iff.mp h line (List.mem_reverse.mpr hline)
    | some library =>
        obtain ⟨below, line, above, hheader, hline, hbelow⟩ := List.findSome?_eq_some_iff.mp h
        have hsplit : header = above.reverse ++ line :: below.reverse := by
          rw [← List.reverse_reverse header, hheader]
          simp
        apply LastImport.some hsplit (importedBy_eq_some_iff.mp hline)
        intro other hother
        exact importedBy_eq_none_iff.mp (hbelow other (List.mem_reverse.mp hother))
  · intro h
    cases h with
    | none h =>
        apply List.findSome?_eq_none_iff.mpr
        intro line hline
        exact importedBy_eq_none_iff.mpr (h line (List.mem_reverse.mp hline))
    | @some above below line library hheader himports hlast =>
        apply List.findSome?_eq_some_iff.mpr
        refine ⟨below.reverse, line, above.reverse, by simp [hheader],
          importedBy_eq_some_iff.mpr himports, ?_⟩
        intro other hother
        exact importedBy_eq_none_iff.mpr (hlast other (List.mem_reverse.mp hother))

theorem splitHeader_eq (lines : List Text) :
    splitHeader lines = (lines.take (headerEnd lines), lines.drop (headerEnd lines)) := by
  rw [splitHeader, List.span_eq_takeWhile_dropWhile, List.takeWhile_eq_take_findIdx_not,
    List.dropWhile_eq_drop_findIdx_not]
  simp [headerEnd]

/-- What a line that declares the variable tells about it. -/
def told (types : LoggerTypes) (receiver : Text) (imported : Option Library) (line : Text) :
    Resolution :=
  if Declares types.standard receiver line then .declared .standard
  else if Declares types.log4j receiver line then .declared .log4j
  else (imported.map Resolution.imported).getD .unresolved

theorem declaredBy_eq (types : LoggerTypes) (receiver : Text) (imported : Option Library)
    (line : Text) :
    declaredBy types receiver imported line =
      if ∃ type ∈ typeNames types, Declares type receiver line then
        some (told types receiver imported line)
      else none := by
  simp only [declaredBy, told, typeNames, Bool.or_eq_true, declares_iff, List.mem_cons,
    List.not_mem_nil, or_false, exists_eq_or_imp, exists_eq_left]
  by_cases hstandard : Declares types.standard receiver line
  · simp [hstandard]
  · by_cases hlog4j : Declares types.log4j receiver line
    · simp [hstandard, hlog4j]
    · simp [hstandard, hlog4j]

/-- Of the lines below the header, only the first one that declares the variable is asked. -/
theorem findSome?_declaredBy :
    body.findSome? (declaredBy types receiver imported) =
      (body.find? fun line => ∃ type ∈ typeNames types, Declares type receiver line).map
        (told types receiver imported) := by
  induction body with
  | nil => rfl
  | cons line body ih =>
      rw [List.findSome?_cons, List.find?_cons, declaredBy_eq]
      by_cases hdeclared : ∃ type ∈ typeNames types, Declares type receiver line
      · simp only [if_pos hdeclared, decide_eq_true hdeclared, Option.map_some]
      · simp only [if_neg hdeclared, decide_eq_false hdeclared]
        exact ih

theorem resolve_eq (types : LoggerTypes) (lines : List Text) (receiver : Text) :
    resolve types lines receiver =
      (((lines.drop (headerEnd lines)).find? fun line =>
          ∃ type ∈ typeNames types, Declares type receiver line).map
        (told types receiver (lastImport types (lines.take (headerEnd lines))))).getD
        .unresolved := by
  rw [resolve, splitHeader_eq, ← findSome?_declaredBy]

theorem find?_eq_some_iff :
    ((lines.drop (headerEnd lines)).find? fun line =>
        ∃ type ∈ typeNames types, Declares type receiver line) = some line ↔
      ∃ d, Decides types lines receiver d line := by
  constructor
  · intro h
    obtain ⟨hdeclared, i, hi, hget, hfirst⟩ := List.find?_eq_some_iff_getElem.mp h
    have hline : (lines.drop (headerEnd lines))[i]? = some line :=
      List.getElem?_eq_some_iff.mpr ⟨hi, hget⟩
    rw [List.getElem?_drop] at hline
    refine ⟨headerEnd lines + i, Nat.le_add_right _ _, hline, of_decide_eq_true hdeclared, ?_⟩
    intro j other hle hlt hother
    obtain ⟨k, rfl⟩ := Nat.exists_eq_add_of_le hle
    rw [← List.getElem?_drop] at hother
    obtain ⟨hk, rfl⟩ := List.getElem?_eq_some_iff.mp hother
    have hmissed := hfirst k (by omega)
    rw [Bool.not_eq_true', decide_eq_false_iff_not] at hmissed
    exact hmissed
  · rintro ⟨d, h⟩
    obtain ⟨i, rfl⟩ := Nat.exists_eq_add_of_le h.headerEnd_le
    have hline := h.getElem?_eq
    rw [← List.getElem?_drop] at hline
    obtain ⟨hi, hget⟩ := List.getElem?_eq_some_iff.mp hline
    refine List.find?_eq_some_iff_getElem.mpr ⟨decide_eq_true h.declared, i, hi, hget, ?_⟩
    intro j hj
    have hother : lines[headerEnd lines + j]? = some (lines.drop (headerEnd lines))[j] := by
      rw [← List.getElem?_drop]
      exact List.getElem?_eq_getElem (Nat.lt_trans hj hi)
    rw [Bool.not_eq_true', decide_eq_false_iff_not]
    exact h.first _ _ (Nat.le_add_right _ j) (Nat.add_lt_add_left hj _) hother

theorem find?_eq_none_iff :
    ((lines.drop (headerEnd lines)).find? fun line =>
        ∃ type ∈ typeNames types, Declares type receiver line) = none ↔
      ∀ j line, headerEnd lines ≤ j → lines[j]? = some line →
        ¬∃ type ∈ typeNames types, Declares type receiver line := by
  rw [List.find?_eq_none]
  constructor
  · intro h j line hle hline
    obtain ⟨k, rfl⟩ := Nat.exists_eq_add_of_le hle
    rw [← List.getElem?_drop] at hline
    have hmissed := h line (List.mem_of_getElem? hline)
    rwa [decide_eq_true_eq] at hmissed
  · intro h line hline
    obtain ⟨k, hk⟩ := List.mem_iff_getElem?.mp hline
    rw [List.getElem?_drop] at hk
    rw [decide_eq_true_eq]
    exact h _ line (Nat.le_add_right _ k) hk

theorem Decides.resolve_eq (h : Decides types lines receiver d line) :
    resolve types lines receiver =
      told types receiver (lastImport types (lines.take (headerEnd lines))) line := by
  rw [Logger.resolve_eq, find?_eq_some_iff.mpr ⟨d, h⟩]
  rfl

theorem Decision.resolve_eq (h : Decision types lines receiver resolution) :
    resolve types lines receiver = resolution := by
  cases h with
  | undeclared h =>
      rw [Logger.resolve_eq, find?_eq_none_iff.mpr h]
      rfl
  | standard hdecides hstandard => simp [hdecides.resolve_eq, told, hstandard]
  | log4j hdecides hstandard hlog4j => simp [hdecides.resolve_eq, told, hstandard, hlog4j]
  | imported hdecides hstandard hlog4j himport =>
      simp [hdecides.resolve_eq, told, hstandard, hlog4j, lastImport_eq_iff.mpr himport]
  | notImported hdecides hstandard hlog4j himport =>
      simp [hdecides.resolve_eq, told, hstandard, hlog4j, lastImport_eq_iff.mpr himport]

theorem Decides.exists_decision (h : Decides types lines receiver d line) :
    ∃ resolution, Decision types lines receiver resolution := by
  by_cases hstandard : Declares types.standard receiver line
  · exact ⟨_, .standard h hstandard⟩
  · by_cases hlog4j : Declares types.log4j receiver line
    · exact ⟨_, .log4j h hstandard hlog4j⟩
    · cases himport : lastImport types (lines.take (headerEnd lines)) with
      | none => exact ⟨_, .notImported h hstandard hlog4j (lastImport_eq_iff.mp himport)⟩
      | some library => exact ⟨_, .imported h hstandard hlog4j (lastImport_eq_iff.mp himport)⟩

theorem exists_decision (types : LoggerTypes) (lines : List Text) (receiver : Text) :
    ∃ resolution, Decision types lines receiver resolution := by
  cases hfind : (lines.drop (headerEnd lines)).find? fun line =>
      ∃ type ∈ typeNames types, Declares type receiver line with
  | none => exact ⟨_, .undeclared (find?_eq_none_iff.mp hfind)⟩
  | some line =>
      obtain ⟨d, h⟩ := find?_eq_some_iff.mp hfind
      exact h.exists_decision

theorem resolve_eq_iff :
    resolve types lines receiver = resolution ↔ Decision types lines receiver resolution := by
  refine ⟨?_, Decision.resolve_eq⟩
  rintro rfl
  obtain ⟨resolution, h⟩ := exists_decision types lines receiver
  rwa [h.resolve_eq]

theorem headerEnd_append {u : List Text} (v : List Text) (h : headerEnd u < u.length) :
    headerEnd (u ++ v) = headerEnd u := by
  rw [headerEnd, List.findIdx_append, ← headerEnd, if_pos h]

theorem resolve_append {u : List Text} (v : List Text) (h : Decides types u receiver d line) :
    resolve types (u ++ v) receiver = resolve types u receiver := by
  obtain ⟨hlt, -⟩ := List.getElem?_eq_some_iff.mp h.getElem?_eq
  have hheader : headerEnd u < u.length := Nat.lt_of_le_of_lt h.headerEnd_le hlt
  have hle : headerEnd u ≤ u.length := Nat.le_of_lt hheader
  rw [Logger.resolve_eq, Logger.resolve_eq, headerEnd_append v hheader,
    List.take_append_of_le_length hle, List.drop_append_of_le_length hle, List.find?_append,
    find?_eq_some_iff.mpr ⟨d, h⟩]
  rfl

theorem Decides.take (h : Decides types lines receiver d line) :
    Decides types (lines.take (d + 1)) receiver d line := by
  have hheader : headerEnd (lines.take (d + 1)) = headerEnd lines := by
    have hle := h.headerEnd_le
    rw [headerEnd, List.findIdx_take, ← headerEnd]
    omega
  refine ⟨?_, ?_, h.declared, ?_⟩
  · rw [hheader]
    exact h.headerEnd_le
  · rw [List.getElem?_take_of_lt (Nat.lt_succ_self d)]
    exact h.getElem?_eq
  · intro j other hle hj hother
    rw [hheader] at hle
    rw [List.getElem?_take_of_lt (Nat.lt_succ_of_lt hj)] at hother
    exact h.first j other hle hj hother

/-- What is known of a variable is what the decision says. Lines behind the one that decides do not
change it, and neither do other lines below the header, imports among them: sources with the same
header and the same first declaration agree. -/
theorem resolve_by_decision (types : LoggerTypes) (lines : List Text) (receiver : Text) :
    (∀ resolution, resolve types lines receiver = resolution ↔
        Decision types lines receiver resolution) ∧
      (∀ d line lines', Decides types lines receiver d line →
        lines'.take (d + 1) = lines.take (d + 1) →
        resolve types lines' receiver = resolve types lines receiver) ∧
      ∀ lines', lines'.take (headerEnd lines') = lines.take (headerEnd lines) →
        (∀ line, (∃ d, Decides types lines' receiver d line) ↔
          ∃ d, Decides types lines receiver d line) →
        resolve types lines' receiver = resolve types lines receiver := by
  refine ⟨fun resolution => resolve_eq_iff, ?_, ?_⟩
  · intro d line lines' h htake
    rw [← List.take_append_drop (d + 1) lines, ← List.take_append_drop (d + 1) lines', htake,
      resolve_append _ h.take, resolve_append _ h.take]
  · intro lines' hheader hdecides
    have hfind : ((lines'.drop (headerEnd lines')).find? fun line =>
          ∃ type ∈ typeNames types, Declares type receiver line) =
        (lines.drop (headerEnd lines)).find? fun line =>
          ∃ type ∈ typeNames types, Declares type receiver line := by
      apply Option.ext
      intro line
      rw [find?_eq_some_iff, find?_eq_some_iff]
      exact hdecides line
    rw [Logger.resolve_eq, Logger.resolve_eq, hheader, hfind]

/-- An import of the other library above the brace, one of the standard library below it, and a
second declaration. -/
def twiceDeclared : List Text :=
  ["import org.apache.logging.log4j.Logger;", "class A \x7b", "import java.util.logging.Logger;",
    "Logger  log;", "java.util.logging.Logger log;"].map String.toList

theorem resolve_twiceDeclared :
    Decides Settings.default.loggers twiceDeclared "log".toList 3 "Logger  log;".toList ∧
      resolve Settings.default.loggers twiceDeclared "log".toList = .imported .log4j ∧
      resolve Settings.default.loggers (twiceDeclared.take 4) "log".toList =
        resolve Settings.default.loggers twiceDeclared "log".toList := by
  have hdecides : Decides Settings.default.loggers twiceDeclared "log".toList 3
      "Logger  log;".toList := by
    refine ⟨by decide +kernel, rfl, by decide +kernel, ?_⟩
    have hfirst : ∀ j < 3, ∀ other ∈ twiceDeclared[j]?,
        ¬∃ type ∈ typeNames Settings.default.loggers, Declares type "log".toList other := by
      decide +kernel
    intro j other _ hj hother
    exact hfirst j hj other hother
  obtain ⟨hdecision, hbehind, -⟩ :=
    resolve_by_decision Settings.default.loggers twiceDeclared "log".toList
  have hheader : twiceDeclared.take (headerEnd twiceDeclared) =
      [] ++ ["import org.apache.logging.log4j.Logger;".toList] := rfl
  refine ⟨hdecides,
    (hdecision _).mpr (.imported hdecides (by decide +kernel) (by decide +kernel) ?_),
    hbehind 3 _ (twiceDeclared.take 4) hdecides rfl⟩
  exact .some hheader ⟨by decide +kernel, by decide +kernel⟩ (List.forall_mem_nil _)

end LogTemplate.Logger
