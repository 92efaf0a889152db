import LogTemplate.Proofs.Text.Trim
import LogTemplate.Settings.Basic

namespace LogTemplate

namespace Text

theorem trim_eq_nil_iff {cs : Text} : cs.trim = [] ↔ cs.AllBlank := by
  constructor
  · intro h
    obtain ⟨u, v, hu, hv, hcs⟩ := exists_blank_append_trim cs
    rw [h, List.nil_append] at hcs
    rw [hcs]
    exact List.forall_mem_append.mpr ⟨hu, hv⟩
  · intro h
    have htrim := trim_blank_append (v := []) h
    rwa [List.append_nil] at htrim

end Text

namespace Settings

/-- A name that can be used: it is not empty, and no character of it is blank. -/
structure IsWord (name : Text) : Prop where
  ne_nil : name ≠ []
  not_blank : ∀ c ∈ name, isBlank c = false

/-- An extension that can be used: it is not blank, and no dot stands in front of it. -/
structure IsBare (extension : Text) : Prop where
  not_allBlank : ¬extension.AllBlank
  head?_ne : extension.head? ≠ some '.'

instance (extension : Text) : Decidable (IsBare extension) :=
  decidable_of_iff (¬extension.AllBlank ∧ extension.head? ≠ some '.')
    ⟨fun ⟨hblank, hdot⟩ => ⟨hblank, hdot⟩, fun ⟨hblank, hdot⟩ => ⟨hblank, hdot⟩⟩

/-- The settings that are names. -/
def names (settings : Settings) : List (Field × Text) :=
  [(.standardLogger, settings.loggers.standard), (.log4jLogger, settings.loggers.log4j),
    (.levelType, settings.levelType)]

/-- Settings that can be used. -/
structure Valid (settings : Settings) : Prop where
  budget_pos : 1 ≤ settings.operandBudget
  isWord : ∀ entry ∈ settings.names, IsWord entry.2
  loggers_ne : settings.loggers.standard ≠ settings.loggers.log4j
  extensions_ne_nil : settings.extensions ≠ []
  isBare : ∀ extension ∈ settings.extensions, IsBare extension

/-- The issues that settings give rise to, those with single extensions apart. -/
inductive Raised (settings : Settings) : Issue → Prop where
  | noBudget (budget_eq : settings.operandBudget = 0) : Raised settings .noBudget
  | blank {field : Field} {name : Text} (mem : (field, name) ∈ settings.names)
      (allBlank : name.AllBlank) : Raised settings (.empty field)
  | blankInside {field : Field} {name : Text} (mem : (field, name) ∈ settings.names)
      (not_allBlank : ¬name.AllBlank) (exists_blank : ∃ c ∈ name, isBlank c = true) :
      Raised settings (.blankInside field)
  | sameLoggers (eq : settings.loggers.standard = settings.loggers.log4j)
      (ne_nil : settings.loggers.standard ≠ []) : Raised settings .sameLoggers
  | noExtensions (eq_nil : settings.extensions = []) : Raised settings (.empty .extensions)

/-- The place of a setting in the order of the issues. The pair of loggers comes behind the names,
and before the extensions. -/
def Field.place : Field → Nat
  | .operandBudget => 0
  | .standardLogger => 1
  | .log4jLogger => 2
  | .levelType => 3
  | .extensions => 5

def Issue.place : Issue → Nat
  | .noBudget => Field.operandBudget.place
  | .empty field => field.place
  | .blankInside field => field.place
  | .sameLoggers => 4
  | .badExtension _ => 6

/-- The list holds the issues that settings give rise to, each in its place, and behind them one for
each extension that is no bare name. -/
def Lists (settings : Settings) (issues : List Issue) : Prop :=
  ∃ others, issues = others ++
      (settings.extensions.filter fun extension => ¬IsBare extension).map .badExtension ∧
    others.Pairwise (fun a b => a.place < b.place) ∧
    ∀ issue, issue ∈ others ↔ Raised settings issue

variable {settings : Settings} {field : Field} {name : Text} {issue : Issue}

theorem nameIssue?_eq_some_iff :
    nameIssue? field name = some issue ↔
      (name.AllBlank ∧ issue = .empty field) ∨
        (¬name.AllBlank ∧ (∃ c ∈ name, isBlank c = true) ∧ issue = .blankInside field) := by
  simp only [nameIssue?, List.isEmpty_iff, Text.trim_eq_nil_iff]
  by_cases hblank : name.AllBlank
  · simp only [hblank, if_true, true_and, not_true, false_and, or_false, Option.some_inj]
    exact eq_comm
  · have hany : name.any isBlank = true ↔ ∃ c ∈ name, isBlank c = true := List.any_eq_true
    simp only [hblank, if_false, false_and, not_false_iff, true_and, false_or, ← hany]
    split
    · rename_i hinside
      rw [Option.some_inj, and_iff_right hinside]
      exact eq_comm
    · rename_i hinside
      simp [hinside]

theorem place_of_nameIssue? (h : nameIssue? field name = some issue) :
    issue.place = field.place := by
  rcases nameIssue?_eq_some_iff.mp h with ⟨-, rfl⟩ | ⟨-, -, rfl⟩
  · rfl
  · rfl

theorem extensionIssue?_eq (extension : Text) :
    extensionIssue? extension =
      if IsBare extension then none else some (.badExtension extension) := by
  have hiff : (extension.trim.isEmpty || extension.head? == some '.') = true ↔
      ¬IsBare extension := by
    rw [Bool.or_eq_true, List.isEmpty_iff, Text.trim_eq_nil_iff, beq_iff_eq]
    constructor
    · rintro (hblank | hdot) hbare
      · exact hbare.not_allBlank hblank
      · exact hbare.head?_ne hdot
    · intro hbare
      by_contra hnot
      obtain ⟨hblank, hdot⟩ := not_or.mp hnot
      exact hbare ⟨hblank, hdot⟩
  simp only [extensionIssue?, hiff, ite_not]

theorem filterMap_extensionIssue? (extensions : List Text) :
    extensions.filterMap extensionIssue? =
      (extensions.filter fun extension => ¬IsBare extension).map .badExtension := by
  induction extensions with
  | nil => rfl
  | cons extension extensions ih =>
      rw [List.filterMap_cons, extensionIssue?_eq, ih, List.filter_cons]
      by_cases hbare : IsBare extension
      · simp [hbare]
      · simp [hbare]

/-- Issues in their places, all of them before the place `k`. -/
structure Increasing (k : Nat) (issues : List Issue) : Prop where
  pairwise : issues.Pairwise fun a b => a.place < b.place
  place_lt : ∀ issue ∈ issues, issue.place < k

theorem Increasing.append {issues more : List Issue} {k k' : Nat} (h : Increasing k issues)
    (hlength : more.length ≤ 1) (hplace : ∀ issue ∈ more, issue.place = k) (hlt : k < k') :
    Increasing k' (issues ++ more) := by
  constructor
  · refine List.pairwise_append.mpr ⟨h.pairwise, ?_, ?_⟩
    · rcases more with _ | ⟨issue, _ | ⟨next, more⟩⟩
      · exact .nil
      · exact List.pairwise_singleton _ _
      · simp at hlength
    · intro a ha b hb
      rw [hplace b hb]
      exact h.place_lt a ha
  · intro issue hissue
    rcases List.mem_append.mp hissue with hissue | hissue
    · exact (h.place_lt issue hissue).trans hlt
    · rw [hplace issue hissue]
      exact hlt

/-- The issues with the budget, the names, the pair of loggers and the list of extensions. -/
def generalIssues (settings : Settings) : List Issue :=
  (if settings.operandBudget = 0 then [.noBudget] else []) ++
    (nameIssue? .standardLogger settings.loggers.standard).toList ++
    (nameIssue? .log4jLogger settings.loggers.log4j).toList ++
    (nameIssue? .levelType settings.levelType).toList ++
    (if settings.loggers.standard ≠ [] ∧ settings.loggers.standard = settings.loggers.log4j then
      [.sameLoggers] else []) ++
    (if settings.extensions.isEmpty then [.empty .extensions] else [])

theorem issues_eq (settings : Settings) :
    settings.issues =
      settings.generalIssues ++
        (settings.extensions.filter fun extension => ¬IsBare extension).map .badExtension := by
  rw [← filterMap_extensionIssue?]
  rfl

theorem increasing_generalIssues (settings : Settings) :
    Increasing 6 settings.generalIssues := by
  have hite : ∀ (c : Prop) [Decidable c] (issue : Issue),
      (if c then [issue] else []).length ≤ 1 ∧
        ∀ other ∈ (if c then [issue] else []), other.place = issue.place := by
    intro c _ issue
    split <;> simp
  have hname : ∀ field name, (nameIssue? field name).toList.length ≤ 1 ∧
      ∀ other ∈ (nameIssue? field name).toList, other.place = field.place := by
    intro field name
    refine ⟨by cases nameIssue? field name <;> simp, fun other hother => ?_⟩
    exact place_of_nameIssue? (Option.mem_toList.mp hother)
  have hbudget := hite (settings.operandBudget = 0) .noBudget
  have hstandard := hname .standardLogger settings.loggers.standard
  have hlog4j := hname .log4jLogger settings.loggers.log4j
  have hlevel := hname .levelType settings.levelType
  have hpair := hite (settings.loggers.standard ≠ [] ∧
    settings.loggers.standard = settings.loggers.log4j) .sameLoggers
  have hextensions := hite (settings.extensions.isEmpty = true) (.empty .extensions)
  have hstart : Increasing 0 ([] : List Issue) := ⟨.nil, by simp⟩
  have h₁ := hstart.append hbudget.1 hbudget.2 Nat.zero_lt_one
  have h₂ := h₁.append hstandard.1 hstandard.2 (Nat.lt_succ_self 1)
  have h₃ := h₂.append hlog4j.1 hlog4j.2 (Nat.lt_succ_self 2)
  have h₄ := h₃.append hlevel.1 hlevel.2 (Nat.lt_succ_self 3)
  have h₅ := h₄.append hpair.1 hpair.2 (Nat.lt_succ_self 4)
  exact h₅.append hextensions.1 hextensions.2 (Nat.lt_succ_self 5)

theorem mem_nameIssues_iff :
    (∃ entry ∈ settings.names, nameIssue? entry.1 entry.2 = some issue) ↔
      (∃ field name, (field, name) ∈ settings.names ∧ name.AllBlank ∧ issue = .empty field) ∨
        ∃ field name, (field, name) ∈ settings.names ∧ ¬name.AllBlank ∧
          (∃ c ∈ name, isBlank c = true) ∧ issue = .blankInside field := by
  simp only [nameIssue?_eq_some_iff, Prod.exists, and_or_left, exists_or]

theorem mem_generalIssues_iff : issue ∈ settings.generalIssues ↔ Raised settings issue := by
  have hparts : issue ∈ settings.generalIssues ↔
      (settings.operandBudget = 0 ∧ issue = .noBudget) ∨
        (∃ entry ∈ settings.names, nameIssue? entry.1 entry.2 = some issue) ∨
        ((settings.loggers.standard ≠ [] ∧ settings.loggers.standard = settings.loggers.log4j) ∧
          issue = .sameLoggers) ∨
        (settings.extensions = [] ∧ issue = .empty .extensions) := by
    simp only [generalIssues, names, List.mem_append, List.mem_ite_nil_right, Option.mem_toList,
      List.isEmpty_iff, List.mem_cons, List.not_mem_nil, or_false, exists_eq_or_imp,
      exists_eq_left, or_assoc]
  rw [hparts, mem_nameIssues_iff]
  constructor
  · rintro (⟨hzero, rfl⟩ | (⟨field, name, hmem, hblank, rfl⟩ |
      ⟨field, name, hmem, hblank, hinside, rfl⟩) | ⟨⟨hne, heq⟩, rfl⟩ | ⟨hnil, rfl⟩)
    · exact .noBudget hzero
    · exact .blank hmem hblank
    · exact .blankInside hmem hblank hinside
    · exact .sameLoggers heq hne
    · exact .noExtensions hnil
  · intro h
    cases h with
    | noBudget hzero => exact .inl ⟨hzero, rfl⟩
    | blank hmem hblank => exact .inr (.inl (.inl ⟨_, _, hmem, hblank, rfl⟩))
    | blankInside hmem hblank hinside =>
        exact .inr (.inl (.inr ⟨_, _, hmem, hblank, hinside, rfl⟩))
    | sameLoggers heq hne => exact .inr (.inr (.inl ⟨⟨hne, heq⟩, rfl⟩))
    | noExtensions hnil => exact .inr (.inr (.inr ⟨hnil, rfl⟩))

theorem lists_issues (settings : Settings) : Lists settings settings.issues :=
  ⟨settings.generalIssues, issues_eq settings, (increasing_generalIssues settings).pairwise,
    fun _ => mem_generalIssues_iff⟩

theorem isWord_of_not_raised (h : ∀ issue, ¬Raised settings issue)
    (hmem : (field, name) ∈ settings.names) : IsWord name := by
  have hblank : ¬name.AllBlank := fun hblank => h _ (.blank hmem hblank)
  constructor
  · rintro rfl
    exact hblank fun _ hc => absurd hc List.not_mem_nil
  · intro c hc
    by_contra hinside
    exact h _ (.blankInside hmem hblank ⟨c, hc, by simpa using hinside⟩)

theorem IsWord.not_allBlank (h : IsWord name) : ¬name.AllBlank := by
  intro hblank
  obtain ⟨c, cs, rfl⟩ := List.exists_cons_of_ne_nil h.ne_nil
  have hc := h.not_blank c List.mem_cons_self
  rw [hblank c List.mem_cons_self] at hc
  cases hc

theorem valid_iff :
    Valid settings ↔ (∀ issue, ¬Raised settings issue) ∧
      ∀ extension ∈ settings.extensions, IsBare extension := by
  constructor
  · rintro ⟨hbudget, hword, hloggers, hextensions, hbare⟩
    refine ⟨fun issue hraised => ?_, hbare⟩
    cases hraised with
    | noBudget hzero => omega
    | blank hmem hblank => exact (hword _ hmem).not_allBlank hblank
    | blankInside hmem _ hinside =>
        obtain ⟨c, hc, hblank⟩ := hinside
        rw [(hword _ hmem).not_blank c hc] at hblank
        cases hblank
    | sameLoggers heq _ => exact hloggers heq
    | noExtensions hnil => exact hextensions hnil
  · rintro ⟨hnone, hbare⟩
    have hword : ∀ entry ∈ settings.names, IsWord entry.2 := fun _ hmem =>
      isWord_of_not_raised hnone hmem
    refine ⟨?_, hword, ?_, fun hnil => hnone _ (.noExtensions hnil), hbare⟩
    · exact Nat.pos_of_ne_zero fun hzero => hnone _ (.noBudget hzero)
    · intro heq
      exact hnone _ (.sameLoggers heq (hword _ List.mem_cons_self).ne_nil)

theorem issues_eq_nil_iff : settings.issues = [] ↔ Valid settings := by
  rw [issues_eq, List.append_eq_nil_iff, List.map_eq_nil_iff, List.filter_eq_nil_iff, valid_iff,
    List.eq_nil_iff_forall_not_mem]
  simp only [mem_generalIssues_iff, decide_eq_true_eq, not_not]

end Settings

end LogTemplate
