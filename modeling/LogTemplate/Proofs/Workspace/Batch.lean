import LogTemplate.Proofs.Edit.Weave
import LogTemplate.Proofs.Path.Order
import LogTemplate.Proofs.Text.Utf8
import LogTemplate.Workspace.Edits

/-!
A batch of edits over the files of a workspace is atomic for each file: at every moment a file holds
what it held before the batch, or all of its edits. The files are taken in the order of their paths,
and the first one that fails leaves itself and those behind it as they were.
-/

namespace LogTemplate

namespace Workspace

variable {before middle after : Workspace} {edits : List Edit} {file : Path}
  {location : Location} {text updated : Text}

/-- The two workspaces have the same folders, and files at the same locations. -/
structure Alike (before after : Workspace) : Prop where
  current_eq : after.current = before.current
  folders_eq : after.folders = before.folders
  isSome_eq : ∀ location, (after.fileAt? location).isSome = (before.fileAt? location).isSome

theorem Alike.refl (workspace : Workspace) : Alike workspace workspace :=
  ⟨rfl, rfl, fun _ => rfl⟩

theorem Alike.isFolder_eq (h : Alike before after) (location : Location) :
    after.isFolder location = before.isFolder location := by
  rw [isFolder, isFolder, h.folders_eq]

theorem Alike.resolve_eq (h : Alike before after) (path : Path) :
    after.resolve path = before.resolve path := by
  have hstep : after.step = before.step := by
    funext location piece
    rw [step, step, h.isFolder_eq, h.isSome_eq]
  rw [resolve, resolve, hstep, origin, origin, h.current_eq]

theorem Alike.write (content : Bytes) (h : Alike before after)
    (hfile : (before.fileAt? location).isSome = true) :
    Alike before (after.write location content) := by
  refine ⟨h.current_eq, h.folders_eq, fun other => ?_⟩
  rw [fileAt?_write]
  split
  · rename_i heq
    rw [heq, hfile]
    rfl
  · exact h.isSome_eq other

/-- The workspace with a text at the location of a file that is there. Nothing is written if the
file holds the text already. -/
def update (workspace : Workspace) (location : Location) (text updated : Text) : Workspace :=
  if updated = text then workspace else workspace.write location updated.toBytes

theorem fileAt?_update (h : middle.fileAt? location = some text.toBytes) (other : Location) :
    (middle.update location text updated).fileAt? other =
      if other = location then some updated.toBytes else middle.fileAt? other := by
  rw [update]
  split
  · rename_i heq
    split
    · rename_i hother
      rw [hother, h, heq]
    · rfl
  · rw [fileAt?_write]

theorem Alike.update (h : Alike before middle)
    (hfile : (before.fileAt? location).isSome = true) :
    Alike before (middle.update location text updated) := by
  rw [Workspace.update]
  split
  · exact h
  · exact h.write _ hfile

theorem open?_eq_ok_iff {content : Bytes} :
    before.open? file = .ok (location, content) ↔
      before.resolve file = .ok location ∧ before.fileAt? location = some content := by
  rw [open?]
  cases before.resolve file with
  | error fault => simp [bind, Except.bind]
  | ok found =>
      simp only [bind, Except.bind, Except.ok.injEq]
      constructor
      · intro h
        split at h
        · rename_i content' hcontent
          obtain ⟨rfl, rfl⟩ := Prod.mk.inj (Except.ok.inj h)
          exact ⟨rfl, hcontent⟩
        · cases h
      · rintro ⟨rfl, hcontent⟩
        rw [hcontent]
        rfl

theorem openText_eq_ok_iff :
    before.openText file = .ok (location, text) ↔
      ∃ content, before.open? file = .ok (location, content) ∧ Utf8.decode content = .ok text := by
  rw [openText]
  cases before.open? file with
  | error fault => simp [bind, Except.bind, Except.mapError]
  | ok found =>
      obtain ⟨location', content⟩ := found
      cases hdecode : Utf8.decode content with
      | error fault =>
          simp only [bind, Except.bind, Except.mapError, hdecode, reduceCtorEq, Except.ok.injEq,
            Prod.mk.injEq, false_iff]
          rintro ⟨_, ⟨rfl, rfl⟩, htext⟩
          rw [hdecode] at htext
          cases htext
      | ok text' =>
          simp only [bind, Except.bind, Except.mapError, hdecode, pure, Except.pure,
            Except.ok.injEq, Prod.mk.injEq]
          constructor
          · rintro ⟨rfl, rfl⟩
            exact ⟨content, ⟨rfl, rfl⟩, hdecode⟩
          · rintro ⟨_, ⟨rfl, rfl⟩, htext⟩
            rw [hdecode] at htext
            exact ⟨rfl, Except.ok.inj htext⟩

theorem resolve_of_openText (h : before.openText file = .ok (location, text)) :
    before.resolve file = .ok location := by
  obtain ⟨_, hopen, -⟩ := openText_eq_ok_iff.mp h
  exact (open?_eq_ok_iff.mp hopen).1

theorem fileAt?_of_openText (h : before.openText file = .ok (location, text)) :
    before.fileAt? location = some text.toBytes := by
  obtain ⟨content, hopen, hdecode⟩ := openText_eq_ok_iff.mp h
  rw [(open?_eq_ok_iff.mp hopen).2, Utf8.toBytes_of_decode hdecode]

/-- The workspaces do not differ in what the path leads to. -/
def Untouched (before after : Workspace) (file : Path) : Prop :=
  after.open? file = before.open? file

theorem Alike.untouched (h : Alike before after)
    (hfile : ∀ location, before.resolve file = .ok location →
      after.fileAt? location = before.fileAt? location) : Untouched before after file := by
  rw [Untouched, open?, open?, h.resolve_eq]
  cases hresolve : before.resolve file with
  | error fault => rfl
  | ok location => simp only [bind, Except.bind, hfile location hresolve, h.isFolder_eq]

theorem Untouched.openText_eq (h : Untouched before after file) :
    after.openText file = before.openText file := by
  rw [openText, openText, h]

/-- The edits of a batch that are for a file, in the order of the batch. -/
def editsOf (edits : List Edit) (file : Path) : List Edit :=
  edits.filter fun edit => edit.file.same file

/-- The file holds what it held before with all of its edits applied. -/
def Completed (before after : Workspace) (edits : List Edit) (file : Path) : Prop :=
  ∃ location text updated results, before.openText file = .ok (location, text) ∧
    Edit.applyAll text (editsOf edits file) = .ok (updated, results) ∧
    after.fileAt? location = some updated.toBytes

/-- Why the edits of a file cannot be applied. -/
inductive Failure (workspace : Workspace) (edits : List Edit) (file : Path) : EditError → Prop where
  | unreadable {fault : FileFault} (open_eq : workspace.open? file = .error fault) :
      Failure workspace edits file (.unreadable fault)
  | notText {location : Location} {content : Bytes} {fault : Utf8.Fault}
      (open_eq : workspace.open? file = .ok (location, content))
      (decode_eq : Utf8.decode content = .error fault) :
      Failure workspace edits file (.notText fault)
  | rejected {location : Location} {text : Text} {error : EditError}
      (openText_eq : workspace.openText file = .ok (location, text))
      (applyAll_eq : Edit.applyAll text (editsOf edits file) = .error error) :
      Failure workspace edits file error

theorem applyToFile_eq_ok_iff {own : List Edit} {results : List EditResult} :
    middle.applyToFile file own = .ok (results, after) ↔
      ∃ location text updated, middle.openText file = .ok (location, text) ∧
        Edit.applyAll text own = .ok (updated, results) ∧
        after = middle.update location text updated := by
  rw [applyToFile]
  cases middle.openText file with
  | error error => simp [bind, Except.bind]
  | ok opened =>
      obtain ⟨location, text⟩ := opened
      cases happly : Edit.applyAll text own with
      | error error =>
          simp only [bind, Except.bind, happly, reduceCtorEq, Except.ok.injEq, Prod.mk.injEq,
            false_iff]
          rintro ⟨_, _, _, ⟨rfl, rfl⟩, hother, -⟩
          rw [happly] at hother
          cases hother
      | ok applied =>
          obtain ⟨updated, results'⟩ := applied
          simp only [bind, Except.bind, happly, pure, Except.pure, Except.ok.injEq, Prod.mk.injEq]
          constructor
          · rintro ⟨rfl, rfl⟩
            exact ⟨location, text, updated, ⟨rfl, rfl⟩, happly, rfl⟩
          · rintro ⟨_, _, _, ⟨rfl, rfl⟩, hother, rfl⟩
            rw [happly] at hother
            obtain ⟨rfl, rfl⟩ := Prod.mk.inj (Except.ok.inj hother)
            exact ⟨rfl, rfl⟩

theorem failure_of_applyToFile {error : EditError}
    (h : middle.applyToFile file (editsOf edits file) = .error error) :
    Failure middle edits file error := by
  rw [applyToFile] at h
  cases hopen : middle.open? file with
  | error fault =>
      simp only [openText, hopen, Except.mapError, bind, Except.bind] at h
      rw [← Except.error.inj h]
      exact .unreadable hopen
  | ok found =>
      obtain ⟨location, content⟩ := found
      cases hdecode : Utf8.decode content with
      | error fault =>
          simp only [openText, hopen, hdecode, Except.mapError, bind, Except.bind] at h
          rw [← Except.error.inj h]
          exact .notText hopen hdecode
      | ok text =>
          have htext := openText_eq_ok_iff.mpr ⟨content, hopen, hdecode⟩
          simp only [htext, bind, Except.bind] at h
          cases happly : Edit.applyAll text (editsOf edits file) with
          | error error' =>
              simp only [happly] at h
              rw [← Except.error.inj h]
              exact .rejected htext happly
          | ok applied =>
              simp only [happly] at h
              cases h

theorem Failure.of_untouched {error : EditError} (h : Untouched before middle file)
    (hfailure : Failure middle edits file error) : Failure before edits file error := by
  cases hfailure with
  | unreadable hopen => exact .unreadable (h ▸ hopen)
  | notText hopen hdecode => exact .notText (h ▸ hopen) hdecode
  | rejected htext happly => exact .rejected (h.openText_eq ▸ htext) happly

/-- The workspace in the middle of a batch: the files `done` have got their edits, and nothing else
has changed. -/
structure Stage (before after : Workspace) (edits : List Edit) (done : List Path) : Prop where
  alike : Alike before after
  completed : ∀ file ∈ done, Completed before after edits file
  frame : ∀ location, (∀ file ∈ done, before.resolve file ≠ .ok location) →
    after.fileAt? location = before.fileAt? location

theorem Stage.nil (workspace : Workspace) (edits : List Edit) :
    Stage workspace workspace edits [] :=
  ⟨.refl workspace, fun _ hfile => absurd hfile List.not_mem_nil, fun _ _ => rfl⟩

/-- The file leads to no location that one of the others leads to. -/
def Apart (workspace : Workspace) (file : Path) (others : List Path) : Prop :=
  ∀ location, workspace.resolve file = .ok location →
    ∀ other ∈ others, workspace.resolve other ≠ .ok location

theorem Stage.untouched {done : List Path} (h : Stage before after edits done)
    (hapart : Apart before file done) : Untouched before after file :=
  h.alike.untouched fun location hlocation => h.frame location (hapart location hlocation)

theorem Stage.step {done : List Path} {results : List EditResult}
    (h : Stage before middle edits done) (hapart : Apart before file done)
    (happly : middle.applyToFile file (editsOf edits file) = .ok (results, after)) :
    Stage before after edits (done ++ [file]) ∧
      ∃ location text, before.openText file = .ok (location, text) ∧
        results = (editsOf edits file).map (·.result text) := by
  obtain ⟨location, text, updated, hopen, hedits, rfl⟩ := applyToFile_eq_ok_iff.mp happly
  rw [(h.untouched hapart).openText_eq] at hopen
  have hlocation := resolve_of_openText hopen
  have hcontent := fileAt?_of_openText hopen
  have hmiddle : middle.fileAt? location = some text.toBytes :=
    (h.frame location (hapart location hlocation)).trans hcontent
  refine ⟨⟨?_, ?_, ?_⟩, location, text, hopen, (Edit.applyAll_eq_ok_iff.mp hedits).2.2.symm⟩
  · exact h.alike.update (by rw [hcontent]; rfl)
  · intro other hother
    rcases List.mem_append.mp hother with hother | hother
    · obtain ⟨place, text', updated', results', hopen', hedits', hholds⟩ := h.completed other hother
      refine ⟨place, text', updated', results', hopen', hedits', ?_⟩
      rw [fileAt?_update hmiddle, if_neg, hholds]
      rintro rfl
      exact hapart place hlocation other hother (resolve_of_openText hopen')
    · obtain rfl := List.mem_singleton.mp hother
      refine ⟨location, text, updated, results, hopen, hedits, ?_⟩
      rw [fileAt?_update hmiddle, if_pos rfl]
  · intro other hother
    rw [fileAt?_update hmiddle, if_neg]
    · exact h.frame other fun file hfile => hother file (List.mem_append_left _ hfile)
    · rintro rfl
      exact hother file (by simp) hlocation

/-- What the results of a batch so far hold: for each edit of the files that are done, its place in
the batch and its result. -/
def Recorded (before : Workspace) (edits : List Edit) (files : List Path)
    (results : List (Nat × EditResult)) : Prop :=
  ∀ place result, (place, result) ∈ results ↔
    ∃ file ∈ files, ∃ edit location text, edits[place]? = some edit ∧ edit.file.same file = true ∧
      before.openText file = .ok (location, text) ∧ result = edit.result text

theorem map_fst_filter_zipIdx (edits : List Edit) (file : Path) :
    (edits.zipIdx.filter fun (edit, _) => edit.file.same file).map Prod.fst =
      editsOf edits file := by
  have hfst := List.filter_map (f := Prod.fst) (p := fun edit : Edit => edit.file.same file)
    (l := edits.zipIdx)
  rw [List.zipIdx_map_fst] at hfst
  exact hfst.symm

theorem recorded_zip {results : List EditResult}
    (hopen : before.openText file = .ok (location, text))
    (hresults : results = (editsOf edits file).map (·.result text)) :
    Recorded before edits [file]
      (((edits.zipIdx.filter fun (edit, _) => edit.file.same file).map Prod.snd).zip results) := by
  intro place result
  rw [hresults, ← map_fst_filter_zipIdx, List.map_map, List.zip_map', List.mem_map]
  constructor
  · rintro ⟨⟨edit, place'⟩, hmem, heq⟩
    obtain ⟨rfl, rfl⟩ := Prod.mk.inj heq
    obtain ⟨hplace, hsame⟩ := List.mem_filter.mp hmem
    exact ⟨file, List.mem_singleton_self file, edit, location, text,
      List.mem_zipIdx_iff_getElem?.mp hplace, hsame, hopen, rfl⟩
  · rintro ⟨_, hfile, edit, location', text', hplace, hsame, hopen', rfl⟩
    obtain rfl := List.mem_singleton.mp hfile
    rw [hopen] at hopen'
    obtain ⟨-, rfl⟩ := Prod.mk.inj (Except.ok.inj hopen')
    exact ⟨(edit, place),
      List.mem_filter.mpr ⟨List.mem_zipIdx_iff_getElem?.mpr hplace, hsame⟩, rfl⟩

theorem Recorded.append {files files' : List Path} {results results' : List (Nat × EditResult)}
    (h : Recorded before edits files results) (h' : Recorded before edits files' results') :
    Recorded before edits (files ++ files') (results ++ results') := by
  intro place result
  rw [List.mem_append, h, h']
  constructor
  · rintro (⟨file, hfile, hrest⟩ | ⟨file, hfile, hrest⟩)
    · exact ⟨file, List.mem_append_left _ hfile, hrest⟩
    · exact ⟨file, List.mem_append_right _ hfile, hrest⟩
  · rintro ⟨file, hfile, hrest⟩
    rcases List.mem_append.mp hfile with hfile | hfile
    · exact .inl ⟨file, hfile, hrest⟩
    · exact .inr ⟨file, hfile, hrest⟩

/-- The files that one run over them can write, each with its own location. -/
def Separate (workspace : Workspace) (files : List Path) : Prop :=
  files.Pairwise fun p q => ∀ location, workspace.resolve p = .ok location →
    workspace.resolve q ≠ .ok location

theorem Separate.apart {done files : List Path} (h : Separate before (done ++ file :: files)) :
    Apart before file done := by
  intro location hlocation other hother hresolve
  have hpair := (List.pairwise_append.mp h).2.2 other hother file (by simp)
  exact hpair location hresolve hlocation

/-- How a run over files ends: with all of them done, or at the first one that fails. -/
inductive Ending (before after : Workspace) (edits : List Edit) (done files : List Path) :
    Except EditError (List (Nat × EditResult)) → Prop where
  | ok {results : List (Nat × EditResult)} (stage : Stage before after edits (done ++ files))
      (recorded : Recorded before edits files results) :
      Ending before after edits done files (.ok results)
  | error {finished rest : List Path} {failing : Path} {error : EditError}
      (files_eq : files = finished ++ failing :: rest)
      (stage : Stage before after edits (done ++ finished))
      (failure : Failure before edits failing error) :
      Ending before after edits done files (.error error)

theorem ending_applyFiles {done files : List Path} (h : Stage before middle edits done)
    (hseparate : Separate before (done ++ files)) :
    Ending before (applyFiles edits.zipIdx files middle).2 edits done files
      (applyFiles edits.zipIdx files middle).1 := by
  induction files generalizing middle done with
  | nil =>
      refine .ok (by rwa [List.append_nil]) ?_
      intro place result
      simp
  | cons file files ih =>
      have hapart := hseparate.apart
      simp only [applyFiles, map_fst_filter_zipIdx]
      cases happly : middle.applyToFile file (editsOf edits file) with
      | error error =>
          have hfailure := (failure_of_applyToFile happly).of_untouched (h.untouched hapart)
          exact .error rfl (by rwa [List.append_nil]) hfailure
      | ok applied =>
          obtain ⟨results, next⟩ := applied
          obtain ⟨hstage, location, text, hopen, hresults⟩ := h.step hapart happly
          have hending := ih hstage (by simpa using hseparate)
          simp only
          revert hending
          generalize applyFiles edits.zipIdx files next = outcome
          obtain ⟨rest, last⟩ := outcome
          intro hending
          cases hending with
          | ok hlast hrecorded =>
              refine .ok (by simpa using hlast) ?_
              exact (recorded_zip hopen hresults).append hrecorded
          | @error finished others failing _ hfiles hlast hfailure =>
              have hcut : file :: files = (file :: finished) ++ failing :: others := by
                rw [hfiles]
                rfl
              exact .error hcut (by simpa using hlast) hfailure

/-- Among these paths, those and only those that are the same lead to the same location. -/
structure Distinguishes (workspace : Workspace) (paths : List Path) : Prop where
  resolve_eq : ∀ p ∈ paths, ∀ q ∈ paths, p.same q = true →
    workspace.resolve p = workspace.resolve q
  same_of_resolve_eq : ∀ p ∈ paths, ∀ q ∈ paths, (workspace.resolve p).isOk = true →
    workspace.resolve p = workspace.resolve q → p.same q = true

theorem Distinguishes.separate_sorted {paths : List Path} (h : Distinguishes before paths) :
    Separate before (Path.sorted paths) := by
  refine (Path.sorted_pairwise paths).imp_of_mem ?_
  intro p q hp hq hlt location hlocation hother
  have hsame := h.same_of_resolve_eq p (Path.mem_of_mem_sorted hp) q (Path.mem_of_mem_sorted hq)
    (by rw [hlocation]; rfl) (hlocation.trans hother.symm)
  exact hlt.ne (Path.same_iff.mp hsame)

theorem open?_congr {p q : Path} (h : before.resolve p = before.resolve q) :
    before.open? p = before.open? q := by
  rw [open?, open?, h]

theorem openText_congr {p q : Path} (h : before.resolve p = before.resolve q) :
    before.openText p = before.openText q := by
  rw [openText, openText, open?_congr h]

theorem editsOf_congr {p q : Path} (h : p.same q = true) : editsOf edits p = editsOf edits q := by
  refine List.filter_congr fun edit _ => ?_
  rw [Bool.eq_iff_iff, Path.same_iff, Path.same_iff, Path.same_iff.mp h]

theorem Completed.congr {p q : Path} (hsame : p.same q = true)
    (hresolve : before.resolve p = before.resolve q) (h : Completed before after edits q) :
    Completed before after edits p := by
  rwa [Completed, openText_congr hresolve, editsOf_congr hsame]

theorem Stage.each {done rest : List Path} (h : Stage before after edits done)
    (hdistinguishes : Distinguishes before (edits.map Edit.file))
    (hfiles : Path.sorted (edits.map Edit.file) = done ++ rest) {edit : Edit}
    (hedit : edit ∈ edits) :
    (Completed before after edits edit.file ∧ ∃ kept ∈ done, edit.file.rank = kept.rank) ∨
      (Untouched before after edit.file ∧ ∃ kept ∈ rest, edit.file.rank = kept.rank) := by
  have hmem : edit.file ∈ edits.map Edit.file := List.mem_map_of_mem hedit
  obtain ⟨kept, hkept, hsame⟩ := Path.exists_same_mem_sorted hmem
  have hresolve := hdistinguishes.resolve_eq _ hmem _ (Path.mem_of_mem_sorted hkept) hsame
  have hrank := Path.same_iff.mp hsame
  have hseparate := hdistinguishes.separate_sorted
  rw [hfiles] at hkept hseparate
  rcases List.mem_append.mp hkept with hdone | hrest
  · exact .inl ⟨(h.completed kept hdone).congr hsame hresolve, kept, hdone, hrank⟩
  · have hapart : Apart before edit.file done := by
      intro location hlocation other hother hmeet
      have hpair := (List.pairwise_append.mp hseparate).2.2 other hother kept hrest
      exact hpair location hmeet (hresolve ▸ hlocation)
    exact .inr ⟨h.untouched hapart, kept, hrest, hrank⟩

theorem Ending.exists_stage {files : List Path}
    {outcome : Except EditError (List (Nat × EditResult))}
    (h : Ending before after edits [] files outcome) :
    ∃ done rest, files = done ++ rest ∧ Stage before after edits done := by
  cases h with
  | ok stage => exact ⟨files, [], by rw [List.append_nil], stage⟩
  | error files_eq stage => exact ⟨_, _, files_eq, stage⟩

theorem lookup_of_recorded {files : List Path} {results : List (Nat × EditResult)} {place : Nat}
    {edit : Edit} (h : Recorded before edits files results)
    (hresolve : ∀ p ∈ files, edit.file.same p = true → before.resolve edit.file = before.resolve p)
    (hplace : edits[place]? = some edit) (hfile : ∃ p ∈ files, edit.file.same p = true)
    (hopen : before.openText edit.file = .ok (location, text)) :
    results.lookup place = some (edit.result text) := by
  cases hlookup : results.lookup place with
  | none =>
      obtain ⟨p, hp, hsame⟩ := hfile
      have hmem : (place, edit.result text) ∈ results := (h _ _).mpr ⟨p, hp, edit, location, text,
        hplace, hsame, openText_congr (hresolve p hp hsame) ▸ hopen, rfl⟩
      simpa using List.lookup_eq_none_iff.mp hlookup _ hmem
  | some result =>
      obtain ⟨front, back, hresults, -⟩ := List.lookup_eq_some_iff.mp hlookup
      obtain ⟨p, hp, edit', _, _, hplace', hsame, hopen', rfl⟩ :=
        (h place result).mp (by rw [hresults]; simp)
      obtain rfl : edit' = edit := Option.some.inj (hplace'.symm.trans hplace)
      rw [← openText_congr (hresolve p hp hsame), hopen] at hopen'
      rw [(Prod.mk.inj (Except.ok.inj hopen')).2]

theorem getElem?_filterMap_range {α : Type} {n : Nat} {f : Nat → Option α}
    (h : ∀ i < n, (f i).isSome = true) :
    ((List.range n).filterMap f).length = n ∧
      ∀ i < n, ((List.range n).filterMap f)[i]? = f i := by
  induction n with
  | zero => exact ⟨rfl, fun _ hi => absurd hi (Nat.not_lt_zero _)⟩
  | succ n ih =>
      obtain ⟨hlength, hget⟩ := ih fun i hi => h i (hi.trans n.lt_succ_self)
      obtain ⟨a, ha⟩ := Option.isSome_iff_exists.mp (h n n.lt_succ_self)
      rw [List.range_succ, List.filterMap_append]
      simp only [List.filterMap_cons, ha, List.filterMap_nil]
      refine ⟨by simp [hlength], fun i hi => ?_⟩
      rcases Nat.lt_succ_iff_lt_or_eq.mp hi with hlt | rfl
      · rw [List.getElem?_append_left (by omega), hget i hlt]
      · rw [List.getElem?_append_right (by omega), hlength, ha, Nat.sub_self]
        rfl

/-- How a batch ends. Either all of its files hold their edits, with a result for each edit in its
place, or there is a file that fails, and exactly those that sort before it hold theirs. -/
inductive Outcome (before after : Workspace) (edits : List Edit) :
    Except EditError (List EditResult) → Prop where
  | ok {results : List EditResult} (length_eq : results.length = edits.length)
      (result : ∀ (place : Nat) (edit : Edit), edits[place]? = some edit → ∃ location text,
        before.openText edit.file = .ok (location, text) ∧
          results[place]? = some (edit.result text))
      (completed : ∀ edit ∈ edits, Completed before after edits edit.file) :
      Outcome before after edits (.ok results)
  | error {failing : Edit} {error : EditError} (mem : failing ∈ edits)
      (failure : Failure before edits failing.file error)
      (untouched : ∀ edit ∈ edits, failing.file.le edit.file = true →
        Untouched before after edit.file)
      (completed : ∀ edit ∈ edits, failing.file.le edit.file = false →
        Completed before after edits edit.file) :
      Outcome before after edits (.error error)

theorem Ending.outcome {outcome : Except EditError (List (Nat × EditResult))}
    (hdistinguishes : Distinguishes before (edits.map Edit.file))
    (h : Ending before after edits [] (Path.sorted (edits.map Edit.file)) outcome) :
    Outcome before after edits
      (outcome.map fun results => (List.range edits.length).filterMap (results.lookup ·)) := by
  cases h with
  | @ok results stage recorded =>
      have hcompleted : ∀ edit ∈ edits, Completed before after edits edit.file := by
        intro edit hedit
        have heach := stage.each hdistinguishes (List.append_nil _).symm hedit
        rcases heach with ⟨hcompleted, -⟩ | ⟨-, _, hmem, -⟩
        · exact hcompleted
        · exact absurd hmem List.not_mem_nil
      have hlookup : ∀ place edit, edits[place]? = some edit → ∃ location text,
          before.openText edit.file = .ok (location, text) ∧
            results.lookup place = some (edit.result text) := by
        intro place edit hplace
        have hmem := List.mem_of_getElem? hplace
        obtain ⟨location, text, _, _, hopen, -⟩ := hcompleted edit hmem
        refine ⟨location, text, hopen, lookup_of_recorded recorded ?_ hplace ?_ hopen⟩
        · exact fun p hp => hdistinguishes.resolve_eq _ (List.mem_map_of_mem hmem) _
            (Path.mem_of_mem_sorted hp)
        · exact Path.exists_same_mem_sorted (List.mem_map_of_mem hmem)
      have hsome : ∀ place < edits.length, (results.lookup place).isSome = true := by
        intro place hlt
        obtain ⟨_, _, -, hresult⟩ := hlookup place _ (List.getElem?_eq_getElem hlt)
        rw [hresult]
        rfl
      obtain ⟨hlength, hget⟩ := getElem?_filterMap_range hsome
      refine .ok hlength ?_ hcompleted
      intro place edit hplace
      obtain ⟨location, text, hopen, hresult⟩ := hlookup place edit hplace
      refine ⟨location, text, hopen, ?_⟩
      rw [hget place (List.getElem?_eq_some_iff.mp hplace).1, hresult]
  | @error finished rest failing error files_eq stage failure =>
      -- The files are sorted, so those up to the failing one are told by its rank.
      have hmem : failing ∈ Path.sorted (edits.map Edit.file) := by simp [files_eq]
      obtain ⟨edit, hedit, rfl⟩ := List.mem_map.mp (Path.mem_of_mem_sorted hmem)
      have hsorted := Path.sorted_pairwise (edits.map Edit.file)
      rw [files_eq] at hsorted
      obtain ⟨-, hrest, hfinished⟩ := List.pairwise_append.mp hsorted
      refine .error hedit failure ?_ ?_
      · intro other hother hle
        rcases stage.each hdistinguishes files_eq hother with ⟨-, kept, hkept, hrank⟩ | ⟨h, -⟩
        · have hlt := hfinished kept hkept edit.file List.mem_cons_self
          rw [← hrank] at hlt
          exact absurd (Path.le_iff.mp hle) (not_le.mpr hlt)
        · exact h
      · intro other hother hlt
        rcases stage.each hdistinguishes files_eq hother with ⟨h, -⟩ | ⟨-, kept, hkept, hrank⟩
        · exact h
        · have hle : edit.file.rank ≤ kept.rank := by
            rcases List.mem_cons.mp hkept with rfl | hkept
            · exact le_refl _
            · exact ((List.pairwise_cons.mp hrest).1 kept hkept).le
          rw [← hrank, ← Path.le_iff, hlt] at hle
          cases hle

/-- A batch of edits is atomic for each file, at its end and after any number of its files. -/
theorem outcome_applyBatch (hdistinguishes : Distinguishes before (edits.map Edit.file)) :
    Outcome before (before.applyBatch edits).2 edits (before.applyBatch edits).1 ∧
      (∀ location, (∀ edit ∈ edits, before.resolve edit.file ≠ .ok location) →
        (before.applyBatch edits).2.fileAt? location = before.fileAt? location) ∧
      ∀ count, ∀ edit ∈ edits,
        let files := (Path.sorted (edits.map Edit.file)).take count
        let now := (applyFiles edits.zipIdx files before).2
        Untouched before now edit.file ∨ Completed before now edits edit.file := by
  have hseparate := hdistinguishes.separate_sorted
  have hall : Separate before ([] ++ Path.sorted (edits.map Edit.file)) := hseparate
  have hending := ending_applyFiles (Stage.nil before edits) hall
  refine ⟨hending.outcome hdistinguishes, ?_, ?_⟩
  · intro location hlocation
    obtain ⟨done, rest, hfiles, hstage⟩ := hending.exists_stage
    refine hstage.frame location fun file hfile => ?_
    have hmem : file ∈ Path.sorted (edits.map Edit.file) := by simp [hfiles, hfile]
    obtain ⟨edit, hedit, rfl⟩ := List.mem_map.mp (Path.mem_of_mem_sorted hmem)
    exact hlocation edit hedit
  · intro count edit hedit files now
    have hfront : Separate before ([] ++ files) := hseparate.sublist (List.take_sublist _ _)
    obtain ⟨done, rest, hfiles, hstage⟩ :=
      (ending_applyFiles (Stage.nil before edits) hfront).exists_stage
    have hcut : Path.sorted (edits.map Edit.file) =
        done ++ (rest ++ (Path.sorted (edits.map Edit.file)).drop count) := by
      rw [← List.append_assoc, ← hfiles, List.take_append_drop]
    rcases hstage.each hdistinguishes hcut hedit with ⟨h, -⟩ | ⟨h, -⟩
    · exact .inr h
    · exact .inl h

def threeFiles : Workspace where
  current := []
  files := [(["d", "a"].map String.toList, Text.toBytes "x y".toList),
    (["d", "b"].map String.toList, Text.toBytes "pq".toList),
    (["d", "c"].map String.toList, Text.toBytes "z".toList)]
  folders := [["d".toList]]

/-- The edits of three files, mixed. One path has two spellings, and the file that sorts last holds
another text than its edit expects. -/
def mixedBatch : List Edit :=
  [.replacing ⟨"d/b".toList⟩ 0 1 "P".toList "p".toList,
    .replacing ⟨"d//a".toList⟩ 0 1 "X".toList "x".toList,
    .replacing ⟨"d/c".toList⟩ 0 1 "Z".toList "w".toList,
    .replacing ⟨"d/a".toList⟩ 2 3 "Y".toList "y".toList,
    .replacing ⟨"d/b".toList⟩ 1 2 "Q".toList "q".toList]

theorem outcome_mixedBatch :
    Distinguishes threeFiles (mixedBatch.map Edit.file) ∧
      (threeFiles.applyBatch mixedBatch).2.files.map Prod.snd =
        ["X Y", "PQ", "z"].map (Text.toBytes ·.toList) ∧
      Outcome threeFiles (threeFiles.applyBatch mixedBatch).2 mixedBatch
        (.error (.mismatch ⟨"d/c".toList⟩ 0 1 "z".toList)) := by
  have hdistinguishes : Distinguishes threeFiles (mixedBatch.map Edit.file) :=
    ⟨by decide +kernel, by decide +kernel⟩
  have hsorted : Path.sorted (mixedBatch.map Edit.file) =
      [⟨"d//a".toList⟩, ⟨"d/b".toList⟩, ⟨"d/c".toList⟩] := by
    simp +decide [Path.sorted, mixedBatch, List.mergeSort, Edit.replacing]
  obtain ⟨hbackward, hbackward'⟩ :
      Edit.backward (editsOf mixedBatch ⟨"d//a".toList⟩) =
          (editsOf mixedBatch ⟨"d//a".toList⟩).reverse ∧
        Edit.backward (editsOf mixedBatch ⟨"d/b".toList⟩) =
          (editsOf mixedBatch ⟨"d/b".toList⟩).reverse := by
    simp +decide [editsOf, mixedBatch, Edit.backward, List.mergeSort, Edit.replacing]
  let middle := threeFiles.write (["d", "a"].map String.toList) (Text.toBytes "X Y".toList)
  let after := middle.write (["d", "b"].map String.toList) (Text.toBytes "PQ".toList)
  have hfirst : threeFiles.applyToFile ⟨"d//a".toList⟩ (editsOf mixedBatch ⟨"d//a".toList⟩) =
      .ok ([.applied ⟨"d//a".toList⟩ 1, .applied ⟨"d/a".toList⟩ 1], middle) := by
    simp only [applyToFile, Edit.applyAll, hbackward]
    decide +kernel
  have hsecond : middle.applyToFile ⟨"d/b".toList⟩ (editsOf mixedBatch ⟨"d/b".toList⟩) =
      .ok ([.applied ⟨"d/b".toList⟩ 1, .applied ⟨"d/b".toList⟩ 1], after) := by
    simp only [applyToFile, Edit.applyAll, hbackward']
    decide +kernel
  have hthird : after.applyToFile ⟨"d/c".toList⟩ (editsOf mixedBatch ⟨"d/c".toList⟩) =
      .error (.mismatch ⟨"d/c".toList⟩ 0 1 "z".toList) := by
    have hsingle : Edit.backward (editsOf mixedBatch ⟨"d/c".toList⟩) =
        editsOf mixedBatch ⟨"d/c".toList⟩ := List.mergeSort_singleton _
    simp only [applyToFile, Edit.applyAll, hsingle]
    decide +kernel
  have hanswer : threeFiles.applyBatch mixedBatch =
      (.error (.mismatch ⟨"d/c".toList⟩ 0 1 "z".toList), after) := by
    simp only [applyBatch, hsorted, applyFiles, map_fst_filter_zipIdx, hfirst, hsecond, hthird]
    rfl
  have houtcome := (outcome_applyBatch hdistinguishes).1
  rw [hanswer] at houtcome ⊢
  exact ⟨hdistinguishes, by decide +kernel, houtcome⟩

end Workspace

end LogTemplate
