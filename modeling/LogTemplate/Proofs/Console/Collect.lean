import LogTemplate.Proofs.Console.Fix
import LogTemplate.Proofs.Workspace.Spelling

/-!
The files that paths stand for. All of them are collected and nothing else, but what is collected
are spellings: a file comes twice if two of the paths lead to it by components that differ. For
paths without ways up this is so exactly if they do not begin alike, as a path and the same path
with a dot in front.
-/

namespace LogTemplate.Console

open Workspace

variable {workspace : Workspace} {extensions : List Text} {path folder file : Path}
  {paths : List Path} {names : List Text} {location place : Location}

/-- The path stands for the file at the location, which the names lead to from the path: there are
none if the path is that of the file, and below a folder the last of them has one of the
extensions. -/
inductive StandsFor (workspace : Workspace) (extensions : List Text) (path : Path) :
    List Text → Location → Prop where
  | file {location : Location} (resolve_eq : workspace.resolve path = .ok location)
      (isFile : (workspace.fileAt? location).isSome = true) :
      StandsFor workspace extensions path [] location
  | below {location : Location} {names : List Text} {name extension : Text}
      (resolve_eq : workspace.resolve path = .ok location)
      (isFolder : workspace.isFolder location = true)
      (not_isFile : workspace.fileAt? location = none)
      (isFile : (workspace.fileAt? (location ++ (names ++ [name]))).isSome = true)
      (hasExtension : Path.HasExtension name extension) (mem : extension ∈ extensions) :
      StandsFor workspace extensions path (names ++ [name]) (location ++ (names ++ [name]))

namespace StandsFor

variable (h : StandsFor workspace extensions path names location)

include h

theorem text_ne_nil : path.text ≠ [] := by
  cases h with
  | file hresolve => exact text_ne_nil_of_resolve hresolve
  | below hresolve => exact text_ne_nil_of_resolve hresolve

theorem isName (hworkspace : workspace.WellFormed) : ∀ name ∈ names, Workspace.IsName name := by
  cases h with
  | file => simp
  | below _ _ _ hfile =>
      obtain ⟨content, hcontent⟩ := Option.isSome_iff_exists.mp hfile
      exact hworkspace.isName_of_mem (mem_files_of_fileAt? hcontent)

theorem resolve_below (hworkspace : workspace.WellFormed) :
    workspace.resolve (path.below names) = .ok location := by
  cases h with
  | file hresolve => exact hresolve
  | below hresolve _ _ hfile =>
      obtain ⟨content, hcontent⟩ := Option.isSome_iff_exists.mp hfile
      rw [Path.below, if_neg (by simp)]
      exact hworkspace.resolve_join_of_mem hresolve (mem_files_of_fileAt? hcontent) (by simp)

theorem components_below (hworkspace : workspace.WellFormed) :
    (path.below names).components = path.components ++ names.map .name :=
  Path.components_below h.text_ne_nil (h.isName hworkspace)

theorem up_not_mem_below (hworkspace : workspace.WellFormed) (hup : .up ∉ path.components) :
    .up ∉ (path.below names).components := by
  rwa [Path.mem_components_below_iff h.text_ne_nil (h.isName hworkspace) (by simp)]

theorem spelled_alike_iff {other : Path} {names' : List Text} (hworkspace : workspace.WellFormed)
    (h' : StandsFor workspace extensions other names' location) (hup : .up ∉ path.components)
    (hup' : .up ∉ other.components) :
    path.components ++ names.map .name = other.components ++ names'.map .name ↔
      path.BeginAlike other := by
  rw [← h.components_below hworkspace, ← h'.components_below hworkspace,
    components_eq_iff (h.up_not_mem_below hworkspace hup) (h'.up_not_mem_below hworkspace hup')
      (h.resolve_below hworkspace) (h'.resolve_below hworkspace),
    Path.beginAlike_below_iff h.text_ne_nil h'.text_ne_nil (h.isName hworkspace)
      (h'.isName hworkspace)]

end StandsFor

theorem mem_filesUnder_iff :
    file ∈ workspace.filesUnder folder location ↔
      ∃ names, names ≠ [] ∧ (workspace.fileAt? (location ++ names)).isSome = true ∧
        file = folder.below names := by
  rw [filesUnder, List.mem_filterMap]
  constructor
  · rintro ⟨⟨place, content⟩, hmem, hfile⟩
    simp only [Option.ite_none_right_eq_some, Option.some_inj] at hfile
    obtain ⟨hbelow, rfl⟩ := hfile
    obtain ⟨hfront, hlength⟩ := Bool.and_eq_true_iff.mp hbelow
    obtain ⟨names, rfl⟩ := List.isPrefixOf_iff_prefix.mp hfront
    have hne : names ≠ [] := by
      rintro rfl
      simp at hlength
    refine ⟨names, hne, ?_, ?_⟩
    · exact List.lookup_isSome_iff.mpr ⟨_, hmem, beq_self_eq_true _⟩
    · rw [Path.below, if_neg hne, List.drop_left]
  · rintro ⟨names, hne, hfile, rfl⟩
    obtain ⟨content, hcontent⟩ := Option.isSome_iff_exists.mp hfile
    refine ⟨_, mem_files_of_fileAt? hcontent, ?_⟩
    simp [Path.below, hne]

theorem standsFor_iff_of_isFile (hresolve : workspace.resolve path = .ok location)
    (hfile : (workspace.fileAt? location).isSome = true) :
    StandsFor workspace extensions path names place ↔ names = [] ∧ place = location := by
  constructor
  · intro h
    cases h with
    | file hplace => exact ⟨rfl, Except.ok.inj (hplace.symm.trans hresolve)⟩
    | below hfolder _ hnone =>
        rw [Except.ok.inj (hresolve.symm.trans hfolder), hnone] at hfile
        cases hfile
  · rintro ⟨rfl, rfl⟩
    exact .file hresolve hfile

theorem standsFor_iff_of_isFolder (hresolve : workspace.resolve path = .ok location)
    (hfolder : workspace.isFolder location = true) (hnone : workspace.fileAt? location = none) :
    StandsFor workspace extensions path names place ↔
      ∃ init name extension, names = init ++ [name] ∧ place = location ++ names ∧
        (workspace.fileAt? place).isSome = true ∧ Path.HasExtension name extension ∧
        extension ∈ extensions := by
  constructor
  · intro h
    cases h with
    | file hplace hfile =>
        rw [Except.ok.inj (hplace.symm.trans hresolve), hnone] at hfile
        cases hfile
    | below hplace _ _ hfile hhas hmem =>
        obtain rfl := Except.ok.inj (hresolve.symm.trans hplace)
        exact ⟨_, _, _, rfl, rfl, hfile, hhas, hmem⟩
  · rintro ⟨init, name, extension, rfl, rfl, hfile, hhas, hmem⟩
    exact .below hresolve hfolder hnone hfile hhas hmem

theorem exists_collectOne_mem_iff (extensions : List Text) (hworkspace : workspace.WellFormed)
    (h : workspace.Exists path) :
    ∃ found, collectOne workspace extensions path = .ok found ∧
      ∀ file, file ∈ found ↔ ∃ names location,
        StandsFor workspace extensions path names location ∧ file = path.below names := by
  rw [collectOne]
  by_cases hfile : workspace.isFile path = true
  · obtain ⟨location, content, hopen⟩ := isFile_iff.mp hfile
    obtain ⟨hresolve, hcontent⟩ := open?_eq_ok_iff.mp hopen
    refine ⟨[path], if_pos hfile, fun file => ?_⟩
    simp [standsFor_iff_of_isFile hresolve (Option.isSome_of_eq_some hcontent), Path.below]
  · obtain ⟨location, hresolve, hfolder⟩ := h.isFolder hfile
    have htext := text_ne_nil_of_resolve hresolve
    have hnone : workspace.fileAt? location = none := by
      by_contra hsome
      obtain ⟨content, hcontent⟩ := Option.ne_none_iff_exists'.mp hsome
      exact hfile (isFile_iff.mpr ⟨location, content, open?_eq_ok_iff.mpr ⟨hresolve, hcontent⟩⟩)
    simp only [if_neg hfile, hresolve, if_pos hfolder]
    refine ⟨_, rfl, fun file => ?_⟩
    rw [List.mem_filter, mem_filesUnder_iff]
    constructor
    · rintro ⟨⟨names, hne, hthere, rfl⟩, hextension⟩
      obtain ⟨content, hcontent⟩ := Option.isSome_iff_exists.mp hthere
      have hnames := hworkspace.isName_of_mem (mem_files_of_fileAt? hcontent)
      obtain ⟨init, name, rfl⟩ := (List.eq_nil_or_concat' names).resolve_left hne
      obtain ⟨extension, hhas, hmem⟩ := (Path.any_extension?_below_iff htext hnames).mp hextension
      exact ⟨_, _, .below hresolve hfolder hnone hthere hhas hmem, rfl⟩
    · rintro ⟨names, place, hstands, rfl⟩
      have hnames := hstands.isName hworkspace
      obtain ⟨init, name, extension, rfl, rfl, hthere, hhas, hmem⟩ :=
        (standsFor_iff_of_isFolder hresolve hfolder hnone).mp hstands
      refine ⟨⟨_, by simp, hthere, rfl⟩, ?_⟩
      exact (Path.any_extension?_below_iff htext hnames).mpr ⟨extension, hhas, hmem⟩

section Found

/-- The paths that are found are spellings of the files that the given paths stand for. -/
def Found (workspace : Workspace) (extensions : List Text) (paths found : List Path) : Prop :=
  ∀ file, file ∈ found ↔ ∃ path ∈ paths, ∃ names location,
    StandsFor workspace extensions path names location ∧ file = path.below names

theorem exists_mapM_collectOne_found (extensions : List Text) (hworkspace : workspace.WellFormed)
    (h : ∀ path ∈ paths, workspace.Exists path) :
    ∃ found, paths.mapM (collectOne workspace extensions) = .ok found ∧
      Found workspace extensions paths found.flatten := by
  induction paths with
  | nil => exact ⟨[], rfl, fun file => by simp⟩
  | cons path paths ih =>
      rw [List.forall_mem_cons] at h
      obtain ⟨files, hfiles, hfirst⟩ := exists_collectOne_mem_iff extensions hworkspace h.1
      obtain ⟨found, hfound, hrest⟩ := ih h.2
      refine ⟨files :: found, by rw [List.mapM_cons, hfiles, hfound]; rfl, fun file => ?_⟩
      rw [List.flatten_cons, List.mem_append, hfirst, hrest, List.exists_mem_cons_iff]

variable {found : List Path} (hworkspace : workspace.WellFormed)
  (h : Found workspace extensions paths found)

include hworkspace h

theorem Found.exists_resolve :
    ∀ file ∈ found, ∃ path ∈ paths, ∃ names location,
      StandsFor workspace extensions path names location ∧
        workspace.resolve file = .ok location := by
  intro file hfile
  obtain ⟨path, hpath, names, location, hstands, rfl⟩ := (h file).mp hfile
  exact ⟨path, hpath, names, location, hstands, hstands.resolve_below hworkspace⟩

theorem Found.separate_sorted_iff :
    Separate workspace (Path.sorted found) ↔
      ∀ p ∈ paths, ∀ q ∈ paths, ∀ names names' location,
        StandsFor workspace extensions p names location →
        StandsFor workspace extensions q names' location →
          p.components ++ names.map .name = q.components ++ names'.map .name := by
  rw [Workspace.separate_sorted_iff]
  · constructor
    · intro halike p hp q hq names names' location hstands hstands'
      rw [← hstands.components_below hworkspace, ← hstands'.components_below hworkspace]
      apply halike
      · exact (h _).mpr ⟨p, hp, names, location, hstands, rfl⟩
      · exact (h _).mpr ⟨q, hq, names', location, hstands', rfl⟩
      · rw [hstands.resolve_below hworkspace, hstands'.resolve_below hworkspace]
    · intro halike file hfile other hother heq
      obtain ⟨p, hp, names, location, hstands, rfl⟩ := (h file).mp hfile
      obtain ⟨q, hq, names', location', hstands', rfl⟩ := (h other).mp hother
      rw [hstands.resolve_below hworkspace, hstands'.resolve_below hworkspace] at heq
      obtain rfl := Except.ok.inj heq
      rw [hstands.components_below hworkspace, hstands'.components_below hworkspace]
      exact halike p hp q hq names names' location hstands hstands'
  · intro file hfile
    obtain ⟨_, _, _, location, _, hresolve⟩ := h.exists_resolve hworkspace file hfile
    exact ⟨location, hresolve⟩

theorem Found.exists_mem_sorted (hpath : path ∈ paths)
    (hstands : StandsFor workspace extensions path names location) :
    ∃ file ∈ Path.sorted found, workspace.resolve file = .ok location := by
  obtain ⟨file, hfile, hsame⟩ := Path.exists_same_mem_sorted
    ((h _).mpr ⟨path, hpath, names, location, hstands, rfl⟩)
  obtain ⟨_, _, _, place, _, hresolve⟩ :=
    h.exists_resolve hworkspace file (Path.mem_of_mem_sorted hfile)
  have hplace := eq_of_components_eq (hstands.resolve_below hworkspace) hresolve
    (beq_iff_eq.mp hsame)
  exact ⟨file, hfile, by rw [hresolve, hplace]⟩

end Found

/-- What is collected is what the paths stand for. No file is collected twice exactly if all paths
that stand for it spell it alike, and those without ways up do if and only if they begin alike. -/
theorem collect_each_once_iff (extensions : List Text) (hworkspace : workspace.WellFormed)
    (hpaths : ∀ path ∈ paths, workspace.Exists path) :
    ∃ files, collect workspace extensions paths = .ok files ∧
      (∀ file ∈ files, ∃ path ∈ paths, ∃ names location,
        StandsFor workspace extensions path names location ∧
          workspace.resolve file = .ok location) ∧
      (∀ path ∈ paths, ∀ names location, StandsFor workspace extensions path names location →
        ∃ file ∈ files, workspace.resolve file = .ok location) ∧
      (Separate workspace files ↔
        ∀ p ∈ paths, ∀ q ∈ paths, ∀ names names' location,
          StandsFor workspace extensions p names location →
          StandsFor workspace extensions q names' location →
            p.components ++ names.map .name = q.components ++ names'.map .name) ∧
      ((∀ path ∈ paths, .up ∉ path.components) →
        (Separate workspace files ↔
          ∀ p ∈ paths, ∀ q ∈ paths, ∀ names names' location,
            StandsFor workspace extensions p names location →
            StandsFor workspace extensions q names' location → p.BeginAlike q)) := by
  obtain ⟨found, hcollect, hfound⟩ := exists_mapM_collectOne_found extensions hworkspace hpaths
  have hseparate := hfound.separate_sorted_iff hworkspace
  refine ⟨Path.sorted found.flatten, by rw [collect, hcollect]; rfl, ?_, ?_, hseparate, ?_⟩
  · intro file hfile
    exact hfound.exists_resolve hworkspace file (Path.mem_of_mem_sorted hfile)
  · intro path hpath names location hstands
    exact hfound.exists_mem_sorted hworkspace hpath hstands
  · intro hup
    rw [hseparate]
    constructor
    · intro halike p hp q hq names names' location hstands hstands'
      exact (hstands.spelled_alike_iff hworkspace hstands' (hup p hp) (hup q hq)).mp
        (halike p hp q hq names names' location hstands hstands')
    · intro halike p hp q hq names names' location hstands hstands'
      exact (hstands.spelled_alike_iff hworkspace hstands' (hup p hp) (hup q hq)).mpr
        (halike p hp q hq names names' location hstands hstands')

/-- A folder with one source. -/
def sourceTree : Workspace where
  current := []
  files := [(["src", "A.java"].map String.toList, [])]
  folders := [["src".toList]]

/-- The source is collected once from the folder and a path with a doubled slash, and twice from the
folder and a path with a dot in front. -/
theorem collect_sourceTree :
    (∃ files, collect sourceTree ["java".toList] [⟨"src".toList⟩, ⟨"src//A.java".toList⟩] =
        .ok files ∧ sourceTree.Separate files) ∧
      ∃ files, collect sourceTree ["java".toList] [⟨"src".toList⟩, ⟨"./src/A.java".toList⟩] =
        .ok files ∧ ¬sourceTree.Separate files := by
  have hworkspace : sourceTree.WellFormed := ⟨by decide, by decide, by decide +kernel⟩
  have hfolder : sourceTree.Exists ⟨"src".toList⟩ := ⟨["src".toList], by decide, .inr (by decide)⟩
  have hdoubled : sourceTree.Exists ⟨"src//A.java".toList⟩ :=
    ⟨["src", "A.java"].map String.toList, by decide, .inl (by decide)⟩
  have hdotted : sourceTree.Exists ⟨"./src/A.java".toList⟩ :=
    ⟨["src", "A.java"].map String.toList, by decide, .inl (by decide)⟩
  constructor
  · obtain ⟨files, hcollect, -, -, -, honce⟩ := collect_each_once_iff ["java".toList] hworkspace
      (List.forall_mem_cons.mpr ⟨hfolder, List.forall_mem_singleton.mpr hdoubled⟩)
    have halike : ∀ p ∈ [(⟨"src".toList⟩ : Path), ⟨"src//A.java".toList⟩],
        ∀ q ∈ [(⟨"src".toList⟩ : Path), ⟨"src//A.java".toList⟩], p.BeginAlike q := by
      decide
    exact ⟨files, hcollect, (honce (by decide)).mpr fun p hp q hq _ _ _ _ _ => halike p hp q hq⟩
  · obtain ⟨files, hcollect, -, -, honce, -⟩ := collect_each_once_iff ["java".toList] hworkspace
      (List.forall_mem_cons.mpr ⟨hfolder, List.forall_mem_singleton.mpr hdotted⟩)
    refine ⟨files, hcollect, fun hseparate => ?_⟩
    have hbelow : StandsFor sourceTree ["java".toList] ⟨"src".toList⟩ ["A.java".toList]
        (["src", "A.java"].map String.toList) :=
      @StandsFor.below _ _ _ ["src".toList] [] "A.java".toList "java".toList (by decide)
        (by decide) (by decide) (by decide) ⟨"A".toList, by decide, by decide, by decide⟩
        (by decide)
    have hfile : StandsFor sourceTree ["java".toList] ⟨"./src/A.java".toList⟩ []
        (["src", "A.java"].map String.toList) := .file (by decide) (by decide)
    have hspelled := honce.mp hseparate _ (by simp) _ (by simp) _ _ _ hbelow hfile
    exact absurd hspelled (by decide)

end LogTemplate.Console
