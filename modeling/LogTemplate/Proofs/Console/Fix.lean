import LogTemplate.Console.Session
import LogTemplate.Proofs.Proposal.Pass
import LogTemplate.Proofs.Workspace.Tree
import Mathlib.Algebra.GroupWithZero.Nat

namespace LogTemplate

namespace Workspace

variable {workspace : Workspace} {file : Path} {location : Location} {text out : Text}

theorem readText_of_openText (h : workspace.openText file = .ok (location, text)) :
    workspace.readText file = .ok text := by
  obtain ⟨content, hopen, hdecode⟩ := openText_eq_ok_iff.mp h
  rw [readText, hopen]
  simp only [hdecode, Except.mapError]

theorem readText_of_notText {content : Bytes} {fault : Utf8.Fault}
    (hopen : workspace.open? file = .ok (location, content))
    (hdecode : Utf8.decode content = .error fault) : workspace.readText file = .error .notText := by
  rw [readText, hopen]
  simp only [hdecode, Except.mapError]

theorem WellFormed.exists_open (h : workspace.WellFormed) (hfile : workspace.isFile file = true) :
    ∃ location content, workspace.open? file = .ok (location, content) ∧
      content.length < wordSize := by
  obtain ⟨location, content, hopen⟩ := isFile_iff.mp hfile
  have hcontent := (open?_eq_ok_iff.mp hopen).2
  exact ⟨location, content, hopen, h.length_lt _ (mem_files_of_fileAt? hcontent)⟩

theorem openText_update (out : Text) (h : workspace.openText file = .ok (location, text)) :
    (workspace.update location text out).openText file = .ok (location, out) := by
  have hcontent := fileAt?_of_openText h
  have halike : Alike workspace (workspace.update location text out) :=
    (Alike.refl workspace).update (by rw [hcontent]; rfl)
  refine openText_eq_ok_iff.mpr ⟨out.toBytes, open?_eq_ok_iff.mpr ⟨?_, ?_⟩, Utf8.decode_toBytes out⟩
  · rw [halike.resolve_eq, resolve_of_openText h]
  · rw [fileAt?_update hcontent, if_pos rfl]

theorem exists_applyBatch_eq {edits : List Edit} {results : List EditResult} (hne : edits ≠ [])
    (hfile : ∀ edit ∈ edits, edit.file = file)
    (hopen : workspace.openText file = .ok (location, text))
    (happly : Edit.applyAll text edits = .ok (out, results)) :
    ∃ results', workspace.applyBatch edits =
      (.ok results', workspace.update location text out) := by
  have hsorted : Path.sorted (edits.map Edit.file) = [file] := by
    apply Path.sorted_eq_singleton (by simpa using hne)
    intro path hpath
    obtain ⟨edit, hedit, rfl⟩ := List.mem_map.mp hpath
    exact hfile edit hedit
  have hown : editsOf edits file = edits := by
    refine List.filter_eq_self.mpr fun edit hedit => ?_
    rw [hfile edit hedit]
    exact Path.same_iff.mpr rfl
  have hwrite : workspace.applyToFile file (editsOf edits file) =
      .ok (results, workspace.update location text out) := by
    rw [hown]
    exact applyToFile_eq_ok_iff.mpr ⟨location, text, out, hopen, happly, rfl⟩
  simp only [applyBatch, hsorted, applyFiles, map_fst_filter_zipIdx, hwrite]
  exact ⟨_, rfl⟩

theorem Distinguishes.of_forall_eq {paths : List Path} (h : ∀ path ∈ paths, path = file) :
    Distinguishes workspace paths := by
  constructor
  · intro p hp q hq _
    rw [h p hp, h q hq]
  · intro p hp q hq _ _
    rw [h p hp, h q hq]
    exact Path.same_iff.mpr rfl

theorem Outcome.results_eq {after : Workspace} {edits : List Edit} {results : List EditResult}
    (hfile : ∀ edit ∈ edits, edit.file = file)
    (hopen : workspace.openText file = .ok (location, text))
    (h : Outcome workspace after edits (.ok results)) : results = edits.map (·.result text) := by
  cases h with
  | ok hlength hresult =>
      apply List.ext_getElem?
      intro place
      rw [List.getElem?_map]
      cases hedit : edits[place]? with
      | none =>
          rw [List.getElem?_eq_none_iff] at hedit
          exact List.getElem?_eq_none (hlength.trans_le hedit)
      | some edit =>
          rcases hresult place edit hedit with ⟨location', text', hopen', hplace⟩
          rw [hfile edit (List.mem_of_getElem? hedit), hopen] at hopen'
          obtain ⟨-, rfl⟩ := Prod.mk.inj (Except.ok.inj hopen')
          exact hplace

theorem applyBatch_eq_ok {edits : List Edit} {results : List EditResult} (hne : edits ≠ [])
    (hfile : ∀ edit ∈ edits, edit.file = file)
    (hopen : workspace.openText file = .ok (location, text))
    (happly : Edit.applyAll text edits = .ok (out, results)) :
    workspace.applyBatch edits = (.ok results, workspace.update location text out) := by
  have hdistinguishes : Distinguishes workspace (edits.map Edit.file) :=
    .of_forall_eq (List.forall_mem_map.mpr hfile)
  have hall : Separate workspace ([] ++ Path.sorted (edits.map Edit.file)) :=
    hdistinguishes.separate_sorted
  have houtcome : Outcome workspace (workspace.applyBatch edits).2 edits
      (workspace.applyBatch edits).1 :=
    (ending_applyFiles (Stage.nil workspace edits) hall).outcome hdistinguishes
  obtain ⟨found, hbatch⟩ := exists_applyBatch_eq hne hfile hopen happly
  rw [hbatch] at houtcome ⊢
  rw [houtcome.results_eq hfile hopen, (Edit.applyAll_eq_ok_iff.mp happly).2.2]

end Workspace

namespace Console

open Workspace

variable {settings : Settings} {before middle after workspace : Workspace}
  {file : Path} {location : Location} {text : Text}

theorem total_eq_sum (count : FileReport → Nat) (reports : List FileReport) :
    total count reports = (reports.map count).sum := by
  rw [total, List.sum_eq_foldl, List.foldl_map]

theorem total_eq_zero_iff {count : FileReport → Nat} {reports : List FileReport} :
    total count reports = 0 ↔ ∀ report ∈ reports, count report = 0 := by
  rw [total_eq_sum, List.sum_eq_zero_iff_forall_eq_nat, List.forall_mem_map]

theorem fixFile_of_notText (colored dryRun diff : Bool) (settings : Settings) {content : Bytes}
    {fault : Utf8.Fault} (hopen : workspace.open? file = .ok (location, content))
    (hdecode : Utf8.decode content = .error fault) :
    fixFile colored dryRun diff settings workspace file =
      ({ err := failureLine colored s!"{file.display}: {unreadable file .notText}", failed := 1 },
        workspace) := by
  rw [fixFile, readText_of_notText hopen hdecode]
  rfl

theorem countP_isAlreadyApplied_applied (edits : List Edit) :
    (edits.map fun edit => EditResult.applied edit.file edit.newText.byteSize).countP
      isAlreadyApplied = 0 := by
  rw [List.countP_map]
  exact List.countP_eq_zero.mpr fun _ _ => Bool.false_ne_true

theorem applyPlan_eq_ok (dryRun : Bool) {edits : List Edit} {results : List EditResult}
    {out : Text} (hne : edits ≠ []) (hfile : ∀ edit ∈ edits, edit.file = file)
    (hopen : workspace.openText file = .ok (location, text))
    (happly : Edit.applyAll text edits = .ok (out, results)) :
    applyPlan dryRun workspace file text edits =
      (.ok (out, results), if dryRun then workspace else workspace.update location text out) := by
  cases dryRun with
  | true => simp only [applyPlan, if_true, happly, Except.mapError]
  | false =>
      have hreread := readText_of_openText (openText_update out hopen)
      simp only [applyPlan, applyBatch_eq_ok hne hfile hopen happly, hreread, Bool.false_eq_true,
        if_false]

theorem fixFile_of_openText (colored dryRun diff : Bool) (settings : Settings)
    (hopen : workspace.openText file = .ok (location, text))
    (hsize : text.byteSize < wordSize) :
    let found := Formatter.scan settings (Buffer.ofText text).contents
    ∃ pass, Pass.run settings file text = .ok pass ∧
      fixFile colored dryRun diff settings workspace file =
        ({ out := fixedLines colored dryRun diff file text pass.text found.proposals.length 0
           err := refusalLines colored file found.refusals
           statements := found.proposals.length
           failed := found.refusals.length },
          if dryRun then workspace else workspace.update location text pass.text) := by
  intro found
  obtain ⟨edits, out, hrun, hpinned, happly, -⟩ := Formatter.exists_pass settings file hsize
  have hedits := Formatter.map_ofProposal_of_pinned hpinned
  have hlength : found.proposals.length = edits.length := hpinned.length_eq
  refine ⟨_, hrun, ?_⟩
  rw [fixFile, readText_of_openText hopen, hlength]
  simp only [Formatter.all_ofBuffer hedits]
  cases edits with
  | nil =>
      rw [Edit.applyAll_nil] at happly
      obtain ⟨rfl, -⟩ := Prod.mk.inj (Except.ok.inj happly)
      simp [fixedLines, update, Plan.ofBuffer, found]
  | cons edit edits =>
      have hfile : ∀ other ∈ edit :: edits, other.file = file := by
        intro other hother
        have hmem := List.mem_map_of_mem (f := Except.ok (ε := EditError)) hother
        rw [← hedits] at hmem
        obtain ⟨proposal, -, hedit⟩ := List.mem_map.mp hmem
        exact (Edit.of_ofProposal hedit).1
      simp only [applyPlan_eq_ok dryRun (by simp) hfile hopen happly,
        countP_isAlreadyApplied_applied, List.length_map, Nat.sub_zero]
      rfl

/-- The file is text, and no statement in it is refused. -/
def Clean (settings : Settings) (workspace : Workspace) (file : Path) : Prop :=
  ∃ location text, workspace.openText file = .ok (location, text) ∧
    (Formatter.scan settings (Buffer.ofText text).contents).refusals = []

/-- The workspace in the middle of a run: those of the files `done` that are text hold what a pass
leaves of them, and nothing else has changed. -/
structure Fixed (settings : Settings) (before after : Workspace) (done : List Path) : Prop where
  alike : Alike before after
  holds : ∀ file ∈ done, ∀ location text, before.openText file = .ok (location, text) →
    ∃ pass, Pass.run settings file text = .ok pass ∧
      after.fileAt? location = some pass.text.toBytes
  frame : ∀ location, (∀ file ∈ done, ∀ text, before.openText file ≠ .ok (location, text)) →
    after.fileAt? location = before.fileAt? location

theorem Fixed.nil (settings : Settings) (workspace : Workspace) :
    Fixed settings workspace workspace [] :=
  ⟨.refl workspace, fun _ hfile => absurd hfile List.not_mem_nil, fun _ _ => rfl⟩

theorem Fixed.untouched {done : List Path} (h : Fixed settings before after done)
    (hapart : Apart before file done) : Untouched before after file := by
  refine h.alike.untouched fun location hlocation => h.frame location ?_
  intro other hother text hopen
  exact hapart location hlocation other hother (resolve_of_openText hopen)

section Step

variable {done : List Path}

theorem Fixed.append_notText (h : Fixed settings before middle done)
    (hfile : ∀ location text, before.openText file ≠ .ok (location, text)) :
    Fixed settings before middle (done ++ [file]) := by
  refine ⟨h.alike, ?_, ?_⟩
  · intro other hother location text hopen
    rcases List.mem_append.mp hother with hother | hother
    · exact h.holds other hother location text hopen
    · rw [List.mem_singleton.mp hother] at hopen
      exact absurd hopen (hfile location text)
  · intro location hlocation
    exact h.frame location fun other hother => hlocation other (List.mem_append_left _ hother)

theorem Fixed.append_update {pass : Pass} (h : Fixed settings before middle done)
    (hapart : Apart before file done) (hopen : before.openText file = .ok (location, text))
    (hrun : Pass.run settings file text = .ok pass) :
    Fixed settings before (middle.update location text pass.text) (done ++ [file]) := by
  have hlocation := resolve_of_openText hopen
  have hcontent := fileAt?_of_openText hopen
  have hmiddle : middle.fileAt? location = some text.toBytes :=
    fileAt?_of_openText ((h.untouched hapart).openText_eq.trans hopen)
  refine ⟨h.alike.update (by rw [hcontent]; rfl), ?_, ?_⟩
  · intro other hother place text' hopen'
    rw [fileAt?_update hmiddle]
    rcases List.mem_append.mp hother with hother | hother
    · obtain ⟨pass', hrun', hholds⟩ := h.holds other hother place text' hopen'
      refine ⟨pass', hrun', ?_⟩
      rw [if_neg, hholds]
      rintro rfl
      exact hapart place hlocation other hother (resolve_of_openText hopen')
    · rw [List.mem_singleton.mp hother, hopen] at hopen'
      obtain ⟨rfl, rfl⟩ := Prod.mk.inj (Except.ok.inj hopen')
      rw [List.mem_singleton.mp hother]
      exact ⟨pass, hrun, if_pos rfl⟩
  · intro place hplace
    rw [fileAt?_update hmiddle, if_neg]
    · exact h.frame place fun other hother => hplace other (List.mem_append_left _ hother)
    · rintro rfl
      exact hplace file (by simp) text hopen

theorem Fixed.step (colored diff : Bool) {content : Bytes} (h : Fixed settings before middle done)
    (hapart : Apart before file done) (hopen : before.open? file = .ok (location, content))
    (hsize : content.length < wordSize) :
    Fixed settings before (fixFile colored false diff settings middle file).2 (done ++ [file]) ∧
      ((fixFile colored false diff settings middle file).1.failed = 0 ↔
        Clean settings before file) := by
  -- The file has its own location, so it is read as before the run.
  have huntouched := h.untouched hapart
  cases hdecode : Utf8.decode content with
  | error fault =>
      have hfile : ∀ location text, before.openText file ≠ .ok (location, text) := by
        intro place text htext
        rw [openText, hopen] at htext
        simp [hdecode, bind, Except.bind, Except.mapError] at htext
      rw [fixFile_of_notText colored false diff settings (huntouched.trans hopen) hdecode]
      refine ⟨h.append_notText hfile, by simp, ?_⟩
      rintro ⟨place, text, htext, -⟩
      exact absurd htext (hfile place text)
  | ok text =>
      have htext := openText_eq_ok_iff.mpr ⟨content, hopen, hdecode⟩
      have hbytes : text.byteSize < wordSize := by
        rwa [← Utf8.length_toBytes, Utf8.toBytes_of_decode hdecode]
      obtain ⟨pass, hrun, hfix⟩ := fixFile_of_openText colored false diff settings
        (huntouched.openText_eq.trans htext) hbytes
      rw [hfix]
      refine ⟨h.append_update hapart htext hrun, ?_⟩
      rw [List.length_eq_zero_iff]
      constructor
      · exact fun hrefusals => ⟨location, text, htext, hrefusals⟩
      · rintro ⟨place, text', htext', hrefusals⟩
        rw [htext] at htext'
        obtain ⟨rfl, rfl⟩ := Prod.mk.inj (Except.ok.inj htext')
        exact hrefusals

theorem Fixed.fixFiles (colored diff : Bool) {files : List Path}
    (h : Fixed settings before middle done) (hseparate : Separate before (done ++ files))
    (hopen : ∀ file ∈ files, ∃ location content, before.open? file = .ok (location, content) ∧
      content.length < wordSize) :
    Fixed settings before (fixFiles colored false diff settings files middle).2 (done ++ files) ∧
      ((∀ report ∈ (fixFiles colored false diff settings files middle).1, report.failed = 0) ↔
        ∀ file ∈ files, Clean settings before file) := by
  induction files generalizing middle done with
  | nil =>
      rw [List.append_nil]
      exact ⟨h, by simp [Console.fixFiles]⟩
  | cons file files ih =>
      rw [List.forall_mem_cons] at hopen
      obtain ⟨⟨location, content, hfile, hsize⟩, hfiles⟩ := hopen
      obtain ⟨hstep, hfailed⟩ := h.step colored diff hseparate.apart hfile hsize
      obtain ⟨hfixed, hclean⟩ := ih hstep (by simpa using hseparate) hfiles
      rw [List.append_assoc, List.singleton_append] at hfixed
      rw [Console.fixFiles]
      exact ⟨hfixed, by rw [List.forall_mem_cons, List.forall_mem_cons, hfailed, hclean]⟩

end Step

section Collect

variable (extensions : List Text) {path : Path} {paths : List Path}

theorem collectOne_of_not_exists (h : ¬workspace.Exists path) :
    collectOne workspace extensions path = .error path := by
  rw [collectOne, if_neg (mt Exists.of_isFile h)]
  cases hresolve : workspace.resolve path with
  | error fault => rfl
  | ok location =>
      have hfolder : ¬workspace.isFolder location = true :=
        fun hfolder => h ⟨location, hresolve, .inr hfolder⟩
      simp only [if_neg hfolder]

theorem exists_collectOne (hworkspace : workspace.WellFormed) (h : workspace.Exists path) :
    ∃ found, collectOne workspace extensions path = .ok found ∧
      ∀ file ∈ found, workspace.isFile file = true := by
  rw [collectOne]
  by_cases hfile : workspace.isFile path = true
  · rw [if_pos hfile]
    exact ⟨[path], rfl, List.forall_mem_singleton.mpr hfile⟩
  · obtain ⟨location, hresolve, hfolder⟩ := h.isFolder hfile
    simp only [if_neg hfile, hresolve, if_pos hfolder]
    refine ⟨_, rfl, fun file hmem => ?_⟩
    exact hworkspace.isFile_of_mem_filesUnder hresolve (List.mem_of_mem_filter hmem)

theorem exists_mapM_collectOne (hworkspace : workspace.WellFormed)
    (h : ∀ path ∈ paths, workspace.Exists path) :
    ∃ found, paths.mapM (collectOne workspace extensions) = .ok found ∧
      ∀ file ∈ found.flatten, workspace.isFile file = true := by
  induction paths with
  | nil => exact ⟨[], rfl, by simp⟩
  | cons path paths ih =>
      rw [List.forall_mem_cons] at h
      obtain ⟨files, hfiles, hopen⟩ := exists_collectOne extensions hworkspace h.1
      obtain ⟨found, hfound, hrest⟩ := ih h.2
      refine ⟨files :: found, by rw [List.mapM_cons, hfiles, hfound]; rfl, ?_⟩
      intro file hmem
      rcases List.mem_append.mp hmem with hmem | hmem
      · exact hopen file hmem
      · exact hrest file hmem

theorem exists_collect (hworkspace : workspace.WellFormed)
    (h : ∀ path ∈ paths, workspace.Exists path) :
    ∃ files, collect workspace extensions paths = .ok files ∧
      ∀ file ∈ files, workspace.isFile file = true := by
  obtain ⟨found, hfound, hfiles⟩ := exists_mapM_collectOne extensions hworkspace h
  rw [collect, hfound]
  exact ⟨_, rfl, fun file hmem => hfiles file (Path.mem_of_mem_sorted hmem)⟩

theorem exists_mapM_collectOne_eq_error (hpath : path ∈ paths) (h : ¬workspace.Exists path) :
    ∃ other, paths.mapM (collectOne workspace extensions) = .error other := by
  induction paths with
  | nil => cases hpath
  | cons first paths ih =>
      rw [List.mapM_cons]
      cases hfirst : collectOne workspace extensions first with
      | error other => exact ⟨other, rfl⟩
      | ok files =>
          rcases List.mem_cons.mp hpath with rfl | hpath
          · rw [collectOne_of_not_exists extensions h] at hfirst
            cases hfirst
          · obtain ⟨other, hother⟩ := ih hpath
            rw [hother]
            exact ⟨other, rfl⟩

theorem exists_collect_eq_error (h : ∃ path ∈ paths, ¬workspace.Exists path) :
    ∃ path, collect workspace extensions paths = .error path := by
  obtain ⟨path, hpath, hexists⟩ := h
  obtain ⟨other, hother⟩ := exists_mapM_collectOne_eq_error extensions hpath hexists
  rw [collect, hother]
  exact ⟨other, rfl⟩

end Collect

/-- What the run of `fix` over files comes to: those that are text hold what a pass leaves of them,
all else is as it was, and the exit tells whether one of them is not clean. -/
structure Repaired (settings : Settings) (before : Workspace) (files : List Path)
    (outcome : Outcome) : Prop where
  isFile : ∀ file ∈ files, before.isFile file = true
  text : ∀ file ∈ files, ∀ location text, before.openText file = .ok (location, text) →
    ∃ pass, Pass.run settings file text = .ok pass ∧
      outcome.workspace.fileAt? location = some pass.text.toBytes
  notText : ∀ file ∈ files, ∀ location content, before.open? file = .ok (location, content) →
    (∀ text, Utf8.decode content ≠ .ok text) → outcome.workspace.fileAt? location = some content
  others : ∀ location, (∀ file ∈ files, before.resolve file ≠ .ok location) →
    outcome.workspace.fileAt? location = before.fileAt? location
  exit_eq_one_iff : outcome.exit = 1 ↔ ∃ file ∈ files, ¬Clean settings before file
  exit_eq : outcome.exit = 0 ∨ outcome.exit = 1

theorem repaired_fix (colored diff : Bool) (settings : Settings) {files : List Path}
    (hworkspace : workspace.WellFormed) (hseparate : Separate workspace files)
    (hfiles : ∀ file ∈ files, workspace.isFile file = true) :
    Repaired settings workspace files (fix colored false diff settings workspace files) := by
  have hall : Separate workspace ([] ++ files) := hseparate
  obtain ⟨hfixed, hclean⟩ := (Fixed.nil settings workspace).fixFiles colored diff hall
    fun file hfile => hworkspace.exists_open (hfiles file hfile)
  rw [← total_eq_zero_iff] at hclean
  have hexit : (fix colored false diff settings workspace files).exit =
      if total FileReport.failed (fixFiles colored false diff settings files workspace).1 = 0 then 0
      else 1 := rfl
  refine ⟨hfiles, hfixed.holds, ?_, ?_, ?_, ?_⟩
  · intro file hfile location content hopened hnot
    have hcontent := (open?_eq_ok_iff.mp hopened).2
    refine (hfixed.frame location fun other _ text htext => ?_).trans hcontent
    rw [fileAt?_of_openText htext] at hcontent
    exact hnot text (Option.some.inj hcontent ▸ Utf8.decode_toBytes text)
  · intro location hlocation
    refine hfixed.frame location fun file hfile text htext => ?_
    exact hlocation file hfile (resolve_of_openText htext)
  · have hdirty : (∃ file ∈ files, ¬Clean settings workspace file) ↔
        ¬∀ file ∈ files, Clean settings workspace file := by
      push Not
      rfl
    rw [hexit, hdirty, ← hclean]
    split
    · rename_i hzero
      exact ⟨fun h => absurd h (by decide), fun h => absurd hzero h⟩
    · rename_i hfailed
      exact ⟨fun _ => hfailed, fun _ => rfl⟩
  · rw [hexit]
    split
    · exact .inl rfl
    · exact .inr rfl

/-- What `fix` does to a tree: if one of the paths leads nowhere, then nothing; else all files that
the paths name are repaired, provided that no two of them are the same one. -/
theorem execute_fix (colored diff : Bool) (paths : List Path) {config : Option Path}
    (hworkspace : workspace.WellFormed) (hsettings : settingsFor workspace config = .ok settings) :
    let outcome := execute colored workspace ⟨config, .fix paths false diff⟩
    ((∃ path ∈ paths, ¬workspace.Exists path) →
      outcome.exit = 1 ∧ outcome.workspace = workspace) ∧
    ((∀ path ∈ paths, workspace.Exists path) →
      ∃ files, collect workspace settings.extensions paths = .ok files ∧
        (Separate workspace files → Repaired settings workspace files outcome)) := by
  intro outcome
  constructor
  · intro hmissing
    obtain ⟨path, hpath⟩ := exists_collect_eq_error settings.extensions hmissing
    simp only [outcome, execute, hsettings, hpath]
    exact ⟨rfl, rfl⟩
  · intro hexists
    obtain ⟨files, hcollect, hfiles⟩ := exists_collect settings.extensions hworkspace hexists
    refine ⟨files, hcollect, fun hseparate => ?_⟩
    simp only [outcome, execute, hsettings, hcollect]
    exact repaired_fix colored diff settings hworkspace hseparate hfiles

def mixedText : Text :=
  "class A \x7b java.util.logging.Logger l;\nl.info(\"a\" + b);\n\x7d".toList

def mixedPass : Pass where
  edits :=
    [⟨⟨"src/A.java".toList⟩, 38, 54, "l.log(Level.INFO, \"a\x7b0\x7d\", b);".toList,
      .exact "l.info(\"a\" + b);".toList⟩]
  results := [.applied ⟨"src/A.java".toList⟩ 29]
  text :=
    "class A \x7b java.util.logging.Logger l;\nl.log(Level.INFO, \"a\x7b0\x7d\", b);\n\x7d".toList

/-- A folder with a source, a file that is no text, and a file that is no source. -/
def mixedTree : Workspace where
  current := []
  files :=
    [(["src", "A.java"].map String.toList, mixedText.toBytes),
      (["src", "B.java"].map String.toList, [0xFF]),
      (["src", "C.txt"].map String.toList, mixedText.toBytes)]
  folders := [["src".toList]]

theorem collect_mixedTree : collect mixedTree Settings.default.extensions [⟨"src".toList⟩] =
    .ok [⟨"src/A.java".toList⟩, ⟨"src/B.java".toList⟩] := by
  have hfound :
      [Path.mk "src".toList].mapM (collectOne mixedTree Settings.default.extensions) =
        .ok [[⟨"src/A.java".toList⟩, ⟨"src/B.java".toList⟩]] := by
    decide +kernel
  have hsorted : Path.sorted [⟨"src/A.java".toList⟩, ⟨"src/B.java".toList⟩] =
      [⟨"src/A.java".toList⟩, ⟨"src/B.java".toList⟩] := by
    simp +decide [Path.sorted, List.mergeSort]
  rw [collect, hfound]
  exact congrArg Except.ok hsorted

theorem execute_fix_mixedTree :
    let outcome := execute false mixedTree ⟨none, .fix [⟨"src".toList⟩] false false⟩
    outcome.exit = 1 ∧
      outcome.workspace.fileAt? (["src", "A.java"].map String.toList) =
        some mixedPass.text.toBytes ∧
      outcome.workspace.fileAt? (["src", "B.java"].map String.toList) = some [0xFF] ∧
      outcome.workspace.fileAt? (["src", "C.txt"].map String.toList) = some mixedText.toBytes ∧
      (execute false mixedTree
        ⟨none, .fix [⟨"src".toList⟩, ⟨"lib".toList⟩] false false⟩).workspace = mixedTree := by
  intro outcome
  have hworkspace : mixedTree.WellFormed := ⟨by decide, by decide, by decide +kernel⟩
  have hsettings : settingsFor mixedTree none = .ok .default := by decide +kernel
  have hexists : mixedTree.Exists ⟨"src".toList⟩ := ⟨["src".toList], by decide, .inr (by decide)⟩
  have hmissing : ¬mixedTree.Exists ⟨"lib".toList⟩ := by
    rintro ⟨location, hresolve, hthere⟩
    obtain rfl : ["lib".toList] = location := Except.ok.inj hresolve
    revert hthere
    decide
  obtain ⟨files, hcollect, hrepaired⟩ :=
    (execute_fix false false [⟨"src".toList⟩] hworkspace hsettings).2
      (List.forall_mem_singleton.mpr hexists)
  obtain ⟨-, hunchanged⟩ :=
    (execute_fix false false [⟨"src".toList⟩, ⟨"lib".toList⟩] hworkspace hsettings).1
      ⟨_, by simp, hmissing⟩
  obtain rfl := Except.ok.inj (collect_mixedTree.symm.trans hcollect)
  have hseparate : mixedTree.Separate [⟨"src/A.java".toList⟩, ⟨"src/B.java".toList⟩] := by
    refine List.pairwise_pair.mpr fun location hlocation hother => ?_
    rw [← hlocation] at hother
    exact absurd hother (by decide)
  have hpass : Pass.run .default ⟨"src/A.java".toList⟩ mixedText = .ok mixedPass := by
    have hbackward : Edit.backward mixedPass.edits = mixedPass.edits := by
      simp [Edit.backward, mixedPass]
    have happly : Edit.applyAll mixedText mixedPass.edits =
        .ok (mixedPass.text, mixedPass.results) := by
      rw [Edit.applyAll, hbackward]
      decide +kernel
    exact Formatter.run_eq_ok (by decide +kernel) happly
  have hresult := hrepaired hseparate
  have hnotText : mixedTree.openText ⟨"src/B.java".toList⟩ = .error (.notText (.invalid 1 0)) := by
    decide
  refine ⟨hresult.exit_eq_one_iff.mpr ⟨⟨"src/B.java".toList⟩, by simp, ?_⟩, ?_, ?_, ?_, hunchanged⟩
  · rintro ⟨location, text, htext, -⟩
    rw [hnotText] at htext
    cases htext
  · obtain ⟨pass, hrun, hholds⟩ := hresult.text ⟨"src/A.java".toList⟩ (by simp)
      (["src", "A.java"].map String.toList) mixedText (by decide +kernel)
    obtain rfl := Except.ok.inj (hpass.symm.trans hrun)
    exact hholds
  · refine hresult.notText ⟨"src/B.java".toList⟩ (by simp) _ [0xFF] (by decide) ?_
    intro text hdecode
    rw [show Utf8.decode [0xFF] = .error (.invalid 1 0) by decide] at hdecode
    cases hdecode
  · refine hresult.others _ ?_
    decide

end Console

end LogTemplate
