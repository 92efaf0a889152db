import LogTemplate.Proofs.Workspace.Batch

namespace LogTemplate

theorem Path.exists_pieces_join {folder : Path} {names : List Text} (hfolder : folder.text ≠ [])
    (hnames : ∀ name ∈ names, '/' ∉ name) (hne : names ≠ []) :
    ∃ front, (folder.pieces = front ∨ folder.pieces = front ++ [[]]) ∧
      (folder.join (['/'].intercalate names)).pieces = front ++ names := by
  have hsplit : (['/'].intercalate names).splitOnP (· = '/') = names :=
    List.splitOn_intercalate '/' hnames hne
  have hempty : folder.text.isEmpty = false := by simpa using hfolder
  rw [join, hempty]
  by_cases hslash : folder.text.getLast? = some '/'
  · obtain ⟨front, hfront⟩ := List.getLast?_eq_some_iff.mp hslash
    refine ⟨front.splitOnP (· = '/'), .inr ?_, ?_⟩
    · rw [pieces, hfront, List.splitOnP_append_cons front [] (by decide), List.splitOnP_nil]
    · simp only [hslash, if_true, pieces, Bool.false_eq_true, if_false]
      rw [hfront, List.append_assoc, List.singleton_append,
        List.splitOnP_append_cons front _ (by decide), hsplit]
  · refine ⟨folder.pieces, .inl rfl, ?_⟩
    simp only [hslash, if_false, pieces, Bool.false_eq_true]
    rw [List.splitOnP_append_cons folder.text _ (by decide), hsplit]

theorem Path.exists_text_join {folder : Path} {c : Char} {cs : Text} (name : Text)
    (h : folder.text = c :: cs) : ∃ rest, (folder.join name).text = c :: rest := by
  rw [join, h]
  split
  · rename_i hempty
    simp at hempty
  · split
    · exact ⟨cs ++ name, rfl⟩
    · exact ⟨cs ++ '/' :: name, rfl⟩

namespace Workspace

/-- A name that a file or a folder can have. -/
structure IsName (name : Text) : Prop where
  ne_nil : name ≠ []
  ne_here : name ≠ ['.']
  ne_up : name ≠ ['.', '.']
  slash_not_mem : '/' ∉ name

instance (name : Text) : Decidable (IsName name) :=
  decidable_of_iff (name ≠ [] ∧ name ≠ ['.'] ∧ name ≠ ['.', '.'] ∧ '/' ∉ name)
    ⟨fun ⟨h₁, h₂, h₃, h₄⟩ => ⟨h₁, h₂, h₃, h₄⟩, fun ⟨h₁, h₂, h₃, h₄⟩ => ⟨h₁, h₂, h₃, h₄⟩⟩

/-- A tree as there can be one: all on the way to a file are folders and have names, and the sizes
of the files fit into words. -/
structure WellFormed (workspace : Workspace) : Prop where
  isName : ∀ entry ∈ workspace.files, ∀ name ∈ entry.1, IsName name
  isFolder : ∀ entry ∈ workspace.files, ∀ n < entry.1.length,
    workspace.isFolder (entry.1.take n) = true
  length_lt : ∀ entry ∈ workspace.files, entry.2.length < wordSize

/-- The path leads to a file or a folder. -/
def Exists (workspace : Workspace) (path : Path) : Prop :=
  ∃ location, workspace.resolve path = .ok location ∧
    ((workspace.fileAt? location).isSome = true ∨ workspace.isFolder location = true)

variable {workspace : Workspace} {location : Location} {folder file : Path} {content : Bytes}
  {names : List Text}

theorem mem_files_of_fileAt? (h : workspace.fileAt? location = some content) :
    (location, content) ∈ workspace.files := by
  obtain ⟨_, _, hfiles, -⟩ := List.lookup_eq_some_iff.mp h
  simp [hfiles]

theorem isFile_iff :
    workspace.isFile file = true ↔
      ∃ location content, workspace.open? file = .ok (location, content) := by
  rw [isFile]
  cases workspace.open? file with
  | error fault => simp [Except.isOk, Except.toBool]
  | ok found => simp [Except.isOk, Except.toBool, Prod.exists.symm]

theorem Exists.of_isFile (h : workspace.isFile file = true) : workspace.Exists file := by
  obtain ⟨location, content, hopen⟩ := isFile_iff.mp h
  obtain ⟨hresolve, hcontent⟩ := open?_eq_ok_iff.mp hopen
  exact ⟨location, hresolve, .inl (Option.isSome_of_eq_some hcontent)⟩

theorem Exists.isFolder (h : workspace.Exists file) (hfile : ¬workspace.isFile file = true) :
    ∃ location, workspace.resolve file = .ok location ∧ workspace.isFolder location = true := by
  obtain ⟨location, hresolve, hthere⟩ := h
  refine ⟨location, hresolve, hthere.resolve_left fun hsome => hfile ?_⟩
  obtain ⟨content, hcontent⟩ := Option.isSome_iff_exists.mp hsome
  exact isFile_iff.mpr ⟨location, content, open?_eq_ok_iff.mpr ⟨hresolve, hcontent⟩⟩

theorem step_name {name : Text} (hname : IsName name) (h : workspace.isFolder location = true) :
    workspace.step location name = .ok (location ++ [name]) := by
  rw [step, if_pos h, if_neg (not_or.mpr ⟨hname.ne_nil, hname.ne_here⟩), if_neg hname.ne_up]

theorem foldlM_step_names (hnames : ∀ name ∈ names, IsName name)
    (hfolders : ∀ n < names.length, workspace.isFolder (location ++ names.take n) = true) :
    names.foldlM workspace.step location = .ok (location ++ names) := by
  induction names generalizing location with
  | nil =>
      rw [List.append_nil]
      rfl
  | cons name names ih =>
      rw [List.forall_mem_cons] at hnames
      have hfolder : workspace.isFolder location = true := by
        simpa using hfolders 0 (by simp)
      rw [List.foldlM_cons, step_name hnames.1 hfolder]
      refine (ih hnames.2 fun n hn => ?_).trans (by simp)
      simpa using hfolders (n + 1) (by simpa using hn)

theorem eq_of_step_nil {other : Location} (h : workspace.step location [] = .ok other) :
    other = location := by
  rw [step] at h
  split at h
  · rw [if_pos (.inl rfl)] at h
    exact (Except.ok.inj h).symm
  · split at h
    · cases h
    · cases h

theorem resolve_of_ne_nil {path : Path} (h : path.text ≠ []) :
    workspace.resolve path = path.pieces.foldlM workspace.step (workspace.origin path) := by
  rw [resolve, if_neg (mt List.isEmpty_iff.mp h)]

/-- A path into a folder leads on from where the path of the folder leads. -/
theorem resolve_join (hnames : ∀ name ∈ names, '/' ∉ name) (hne : names ≠ [])
    (h : workspace.resolve folder = .ok location) :
    workspace.resolve (folder.join (['/'].intercalate names)) =
      names.foldlM workspace.step location := by
  have hfolder : folder.text ≠ [] := by
    intro htext
    simp [resolve, htext] at h
  obtain ⟨c, cs, htext⟩ := List.exists_cons_of_ne_nil hfolder
  obtain ⟨rest, hrest⟩ := Path.exists_text_join (['/'].intercalate names) htext
  obtain ⟨front, hpieces, hjoin⟩ := Path.exists_pieces_join hfolder hnames hne
  have horigin : workspace.origin (folder.join (['/'].intercalate names)) =
      workspace.origin folder := by
    simp [origin, Path.isAbsolute, htext, hrest]
  have hfront : front.foldlM workspace.step (workspace.origin folder) = .ok location := by
    rw [resolve_of_ne_nil hfolder] at h
    rcases hpieces with hpieces | hpieces
    · rwa [hpieces] at h
    · rw [hpieces, List.foldlM_append] at h
      cases hfold : front.foldlM workspace.step (workspace.origin folder) with
      | error fault =>
          rw [hfold] at h
          cases h
      | ok other =>
          rw [hfold] at h
          have hstep : workspace.step other [] = .ok location := by
            rw [← bind_pure (workspace.step other [])]
            exact h
          rw [eq_of_step_nil hstep]
  rw [resolve_of_ne_nil (by simp [hrest]), horigin, hjoin, List.foldlM_append, hfront]
  rfl

namespace WellFormed

variable (hworkspace : workspace.WellFormed)

include hworkspace

theorem isName_of_mem (hmem : (location ++ names, content) ∈ workspace.files) :
    ∀ name ∈ names, IsName name := by
  intro name hname
  exact hworkspace.isName _ hmem name (List.mem_append_right _ hname)

theorem resolve_join_of_mem (hfolder : workspace.resolve folder = .ok location)
    (hmem : (location ++ names, content) ∈ workspace.files) (hne : names ≠ []) :
    workspace.resolve (folder.join (['/'].intercalate names)) = .ok (location ++ names) := by
  have hnames := hworkspace.isName_of_mem hmem
  have hfolders : ∀ n < names.length, workspace.isFolder (location ++ names.take n) = true := by
    intro n hn
    have htake := hworkspace.isFolder _ hmem (location.length + n) (by simpa using hn)
    rwa [List.take_length_add_append] at htake
  rw [resolve_join (fun name hname => (hnames name hname).slash_not_mem) hne hfolder]
  exact foldlM_step_names hnames hfolders

theorem isFile_of_mem_filesUnder (hfolder : workspace.resolve folder = .ok location)
    (h : file ∈ workspace.filesUnder folder location) :
    workspace.isFile file = true := by
  obtain ⟨⟨place, content⟩, hmem, hfile⟩ := List.mem_filterMap.mp h
  simp only at hfile
  split at hfile
  · rename_i hbelow
    obtain ⟨hfront, hlength⟩ := Bool.and_eq_true_iff.mp hbelow
    obtain ⟨names, rfl⟩ := List.isPrefixOf_iff_prefix.mp hfront
    have hne : names ≠ [] := by
      rintro rfl
      simp at hlength
    rw [List.drop_left] at hfile
    obtain rfl := Option.some.inj hfile
    have hresolve := hworkspace.resolve_join_of_mem hfolder hmem hne
    obtain ⟨content', hcontent⟩ :
        ∃ content', workspace.fileAt? (location ++ names) = some content' :=
      Option.isSome_iff_exists.mp (List.lookup_isSome_iff.mpr ⟨_, hmem, beq_self_eq_true _⟩)
    exact isFile_iff.mpr ⟨_, content', open?_eq_ok_iff.mpr ⟨hresolve, hcontent⟩⟩
  · cases hfile

end WellFormed

end Workspace

end LogTemplate
