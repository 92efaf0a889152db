import LogTemplate.Proofs.Path.Ancestors
import LogTemplate.Proofs.Settings.Issues
import LogTemplate.Settings.Load

/-!
Where settings come from. The nearest settings file above a path decides alone: if it cannot be
read, is no settings document or holds settings that cannot be used, that is the error, and neither
the defaults nor a file further up takes its place. Settings that are loaded, from wherever, can be
used, and those that cannot be used are rejected with all their issues.
-/

namespace LogTemplate.Settings

open LogTemplate.Path

variable {workspace : Workspace} {start folder path : Path} {origin : Origin} {text : Text}
  {settings : Settings}

/-- What loading settings comes to, given what reading their text comes to. -/
inductive Answer (origin : Origin) (content : Except ReadFault Text) :
    Except LoadError Settings → Prop where
  | unreadable {fault : ReadFault} (content_eq : content = .error fault) :
      Answer origin content (.error (.unreadable origin fault))
  | malformed {text : Text} (content_eq : content = .ok text) (decode_eq : decode? text = none) :
      Answer origin content (.error (.malformed origin))
  | rejected {text : Text} {settings : Settings} {issues : List Issue}
      (content_eq : content = .ok text) (decode_eq : decode? text = some settings)
      (invalid : ¬Valid settings) (lists : Lists settings issues) :
      Answer origin content (.error (.rejected origin issues))
  | accepted {text : Text} {settings : Settings} (content_eq : content = .ok text)
      (decode_eq : decode? text = some settings) (valid : Valid settings) :
      Answer origin content (.ok settings)

theorem Answer.valid {content : Except ReadFault Text} (h : Answer origin content (.ok settings)) :
    Valid settings := by
  cases h with
  | accepted _ _ valid => exact valid

theorem ofText_of_decode? (h : decode? text = some settings) (origin : Origin) :
    (Valid settings ∧ ofText origin text = .ok settings) ∨
      (¬Valid settings ∧ ofText origin text = .error (.rejected origin settings.issues)) := by
  have hempty : settings.issues.isEmpty = true ↔ Valid settings := by
    rw [List.isEmpty_iff, issues_eq_nil_iff]
  simp only [ofText, h]
  by_cases hvalid : Valid settings
  · exact .inl ⟨hvalid, if_pos (hempty.mpr hvalid)⟩
  · exact .inr ⟨hvalid, if_neg (mt hempty.mp hvalid)⟩

theorem answer_ofText (origin : Origin) (text : Text) :
    Answer origin (.ok text) (ofText origin text) := by
  cases hdecode : decode? text with
  | none =>
      rw [ofText, hdecode]
      exact .malformed rfl hdecode
  | some settings =>
      rcases ofText_of_decode? hdecode origin with ⟨hvalid, heq⟩ | ⟨hinvalid, heq⟩
      · rw [heq]
        exact .accepted rfl hdecode hvalid
      · rw [heq]
        exact .rejected rfl hdecode hinvalid (lists_issues settings)

theorem answer_read (workspace : Workspace) (path : Path) (origin : Origin) :
    Answer origin (workspace.readText path) (read workspace path origin) := by
  rw [read]
  cases workspace.readText path with
  | error fault => exact .unreadable rfl
  | ok text => exact answer_ofText origin text

/-- The folder holds a settings file. -/
def holdsSettings (workspace : Workspace) (folder : Path) : Bool :=
  workspace.isFile (folder.join fileName)

theorem discover_eq (workspace : Workspace) (start : Path) :
    discover workspace start =
      (start.ancestors.find? (holdsSettings workspace)).map (·.join fileName) :=
  List.find?_map

theorem loadDiscovered_of_nearest (h : Nearest (holdsSettings workspace) start folder) :
    loadDiscovered workspace start =
      (read workspace (folder.join fileName) (.found (folder.join fileName))).map fun settings =>
        some (folder.join fileName, settings) := by
  rw [loadDiscovered, discover_eq, find?_ancestors_eq_some_iff.mpr h]
  rfl

theorem loadDiscovered_of_forall
    (h : ∀ folder, Above start folder → holdsSettings workspace folder = false) :
    loadDiscovered workspace start = .ok none := by
  rw [loadDiscovered, discover_eq, find?_ancestors_eq_none_iff.mpr h]
  rfl

theorem exists_nearest
    (h : ∃ folder, Above start folder ∧ holdsSettings workspace folder = true) :
    ∃ folder, Nearest (holdsSettings workspace) start folder := by
  obtain ⟨folder, habove, hholds⟩ := h
  cases hfind : start.ancestors.find? (holdsSettings workspace) with
  | none =>
      rw [find?_ancestors_eq_none_iff.mp hfind folder habove] at hholds
      cases hholds
  | some nearest => exact ⟨nearest, find?_ancestors_eq_some_iff.mp hfind⟩

theorem loadDiscovered_ne_ok_none (h : Nearest (holdsSettings workspace) start folder) :
    loadDiscovered workspace start ≠ .ok none := by
  rw [loadDiscovered_of_nearest h]
  cases read workspace (folder.join fileName) (.found (folder.join fileName)) with
  | error error => simp [Except.map]
  | ok settings => simp [Except.map]

theorem loadDiscovered_eq_ok_none_iff :
    loadDiscovered workspace start = .ok none ↔
      ∀ folder, Above start folder → holdsSettings workspace folder = false := by
  constructor
  · intro h folder habove
    by_contra hholds
    obtain ⟨nearest, hnearest⟩ := exists_nearest ⟨folder, habove, by simpa using hholds⟩
    exact loadDiscovered_ne_ok_none hnearest h
  · exact loadDiscovered_of_forall

theorem valid_of_loadDiscovered (h : loadDiscovered workspace start = .ok (some (path, settings))) :
    Valid settings := by
  rw [loadDiscovered] at h
  split at h
  · cases h
  · rename_i found _
    have hanswer := answer_read workspace found (.found found)
    cases hread : read workspace found (.found found) with
    | error error =>
        rw [hread] at h
        cases h
    | ok loaded =>
        rw [hread] at h hanswer
        cases h
        exact hanswer.valid

/-- Nothing takes the place of the settings that are asked for. Above a path no settings are found
exactly if no folder there holds a settings file, and else the nearest one decides, whatever lies
further up. What is loaded can be used, and what cannot be used is rejected with its issues. Above a
path lie the folders with an initial part of its components. -/
theorem settings_never_fall_through (workspace : Workspace) (start path : Path) (text : Text) :
    (loadDiscovered workspace start = .ok none ↔
      ∀ folder, Above start folder → workspace.isFile (folder.join fileName) = false) ∧
    ((∃ folder, Above start folder ∧ workspace.isFile (folder.join fileName) = true) →
      ∃ folder answer, Nearest (holdsSettings workspace) start folder ∧
        Answer (.found (folder.join fileName)) (workspace.readText (folder.join fileName)) answer ∧
        loadDiscovered workspace start =
          answer.map (fun settings => some (folder.join fileName, settings)) ∧
        ∀ other, Nearest (holdsSettings other) start folder →
          other.readText (folder.join fileName) = workspace.readText (folder.join fileName) →
          loadDiscovered other start = loadDiscovered workspace start) ∧
    (Answer .inline (.ok text) (ofText .inline text) ∧
      Answer (.named path) (workspace.readText path) (load workspace path)) ∧
    (∀ settings, ofText .inline text = .ok settings ∨ load workspace path = .ok settings ∨
      (∃ found, loadDiscovered workspace start = .ok (some (found, settings))) → Valid settings) ∧
    (∀ settings origin, decode? text = some settings → ¬Valid settings →
      ∃ issues, Lists settings issues ∧ ofText origin text = .error (.rejected origin issues)) ∧
    (∀ parts, (∃ folder, Above start folder ∧ folder.components = parts) ↔
      parts <+: start.components ∧ (start.components.head? = some .root → parts ≠ [])) := by
  have hinline := answer_ofText .inline text
  have hnamed := answer_read workspace path (.named path)
  refine ⟨loadDiscovered_eq_ok_none_iff, ?_, ⟨hinline, hnamed⟩, ?_, ?_,
    fun parts => exists_above_iff⟩
  · intro h
    obtain ⟨folder, hnearest⟩ := exists_nearest h
    refine ⟨folder, _, hnearest, answer_read workspace _ _, loadDiscovered_of_nearest hnearest, ?_⟩
    intro other hother htext
    rw [loadDiscovered_of_nearest hother, loadDiscovered_of_nearest hnearest, read, read, htext]
  · rintro settings (h | h | ⟨found, h⟩)
    · rw [h] at hinline
      exact hinline.valid
    · rw [load] at h
      rw [h] at hnamed
      exact hnamed.valid
    · exact valid_of_loadDiscovered h
  · intro settings origin hdecode hinvalid
    rcases ofText_of_decode? hdecode origin with ⟨hvalid, -⟩ | ⟨-, heq⟩
    · exact absurd hvalid hinvalid
    · exact ⟨settings.issues, lists_issues settings, heq⟩

/-- A settings file that cannot be used, below one that can. -/
def nestedSettings : Workspace where
  current := ["p".toList]
  files := [(["p", "logger-formatter.toml"].map String.toList, []),
    (["p", "src", "logger-formatter.toml"].map String.toList,
      Text.toBytes ("parser = [0]\nresolver = [\" \", \" \"]\n" ++
        "[rewrite]\nextensions = [\"java\", \".kt\", \".kt\"]").toList)]
  folders := [["p"].map String.toList, ["p", "src"].map String.toList,
    ["p", "src", "main"].map String.toList]

theorem nestedSettings_rejected :
    let found : Path := ⟨"src/logger-formatter.toml".toList⟩
    loadDiscovered nestedSettings ⟨"src/main".toList⟩ =
      .error (.rejected (.found found) [.noBudget, .empty .standardLogger, .empty .log4jLogger,
        .sameLoggers, .badExtension ".kt".toList, .badExtension ".kt".toList]) ∧
    ∃ folder answer, Nearest (holdsSettings nestedSettings) ⟨"src/main".toList⟩ folder ∧
      Answer (.found (folder.join fileName)) (nestedSettings.readText (folder.join fileName))
        answer ∧
      loadDiscovered nestedSettings ⟨"src/main".toList⟩ =
        answer.map fun settings => some (folder.join fileName, settings) := by
  intro found
  obtain ⟨-, hfound, -⟩ :=
    settings_never_fall_through nestedSettings ⟨"src/main".toList⟩ found []
  have habove : Above ⟨"src/main".toList⟩ ⟨"src".toList⟩ := .single (by decide +kernel)
  obtain ⟨folder, answer, hnearest, hanswer, hload, -⟩ := hfound ⟨_, habove, by decide +kernel⟩
  exact ⟨by decide +kernel, folder, answer, hnearest, hanswer, hload⟩

end LogTemplate.Settings
