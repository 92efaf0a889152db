import LogTemplate.Proofs.Path.Ancestors
import LogTemplate.Proofs.Workspace.Tree
import Mathlib.Data.List.Pairwise
import Mathlib.Data.Set.List

namespace LogTemplate

namespace Text

variable {separator : Char} {text after : Text}

theorem afterLast_of_not_mem (h : separator ∉ text) : text.afterLast separator = text := by
  have hne : ∀ c ∈ text.reverse, decide (c ≠ separator) = true := by
    intro c hc
    rw [decide_eq_true_eq]
    rintro rfl
    exact h (List.mem_reverse.mp hc)
  rw [afterLast, List.takeWhile_eq_self_iff.mpr hne, List.reverse_reverse]

theorem afterLast_append_cons (before : Text) (h : separator ∉ after) :
    Text.afterLast separator (before ++ separator :: after) = after := by
  have hafter := afterLast_of_not_mem h
  rw [afterLast, List.reverse_eq_iff] at hafter
  have hreverse : (before ++ separator :: after).reverse =
      after.reverse ++ separator :: before.reverse := by
    simp
  rw [afterLast, hreverse, List.takeWhile_append, hafter, if_pos rfl,
    List.takeWhile_cons_of_neg (by simp), List.append_nil, List.reverse_reverse]

theorem exists_eq_append_afterLast (h : separator ∈ text) :
    ∃ before, text = before ++ separator :: text.afterLast separator ∧
      separator ∉ text.afterLast separator := by
  obtain ⟨after, before, heq, hafter⟩ := List.eq_append_cons_of_mem (List.mem_reverse.mpr h)
  rw [List.reverse_eq_iff] at heq
  have htext : text = before.reverse ++ separator :: after.reverse := by
    rw [heq]
    simp
  have hnot : separator ∉ after.reverse := mt List.mem_reverse.mp hafter
  have hlast : text.afterLast separator = after.reverse := by
    rw [htext, afterLast_append_cons _ hnot]
  exact ⟨before.reverse, by rw [hlast, ← htext], by rwa [hlast]⟩

end Text

namespace Component

/-- The location that a component leads to from another one. -/
def follow (location : Location) : Component → Location
  | .root => []
  | .here => location
  | .up => location.dropLast
  | .name text => location ++ [text]

theorem foldl_follow_names (names : List Text) (location : Location) :
    (names.map name).foldl follow location = location ++ names := by
  induction names generalizing location with
  | nil => simp
  | cons first names ih =>
      rw [List.map_cons, List.foldl_cons, ih, follow, List.append_assoc, List.singleton_append]

theorem filterMap_ofPiece?_names {names : List Text} (h : ∀ name ∈ names, Workspace.IsName name) :
    names.filterMap ofPiece? = names.map name := by
  induction names with
  | nil => rfl
  | cons first names ih =>
      obtain ⟨hfirst, hnames⟩ := List.forall_mem_cons.mp h
      have hpiece : ofPiece? first = some (.name first) := by
        rw [ofPiece?, if_neg (not_or.mpr ⟨hfirst.ne_nil, hfirst.ne_here⟩), if_neg hfirst.ne_up]
      rw [List.filterMap_cons_some hpiece, ih hnames, List.map_cons]

end Component

namespace Path

variable {path folder : Path} {names : List Text}

theorem pieces_ne_singleton_nil (h : path.text ≠ []) : path.pieces ≠ [[]] := by
  intro hpieces
  have htext : ['/'].intercalate path.pieces = path.text := List.intercalate_splitOn '/'
  rw [hpieces] at htext
  exact h htext.symm

section Below

/-- The path of what the names lead to from the folder that this path names. -/
def below (folder : Path) (names : List Text) : Path :=
  if names = [] then folder else folder.join (['/'].intercalate names)

theorem leading_congr {front more more' : List Text} (hfront : front ≠ []) (hmore : more ≠ [])
    (hmore' : more' ≠ []) : leading (front ++ more) = leading (front ++ more') := by
  obtain ⟨first, others, rfl⟩ := List.exists_cons_of_ne_nil hfront
  have hlonger : ∀ {rest : List Text}, rest ≠ [] → first :: others ++ rest ≠ [[]] := by
    intro rest hrest heq
    exact hrest (List.append_eq_nil_iff.mp (List.cons.inj heq).2).2
  rw [leading, leading, if_neg (hlonger hmore), if_neg (hlonger hmore')]
  rfl

theorem components_below (hfolder : folder.text ≠ [])
    (hnames : ∀ name ∈ names, Workspace.IsName name) :
    (folder.below names).components = folder.components ++ names.map .name := by
  by_cases hne : names = []
  · simp [below, hne]
  · have hslash : ∀ name ∈ names, '/' ∉ name := fun name hname => (hnames name hname).slash_not_mem
    obtain ⟨front, hpieces, hjoin⟩ := exists_pieces_join hfolder hslash hne
    have hempty := pieces_ne_singleton_nil hfolder
    rw [below, if_neg hne, components_eq, components_eq, hjoin, List.filterMap_append,
      Component.filterMap_ofPiece?_names hnames, ← List.append_assoc]
    congr 1
    rcases hpieces with hpieces | hpieces
    · have hfront := folder.pieces_ne_nil
      rw [hpieces] at hempty hfront ⊢
      rw [leading_append hfront hempty]
    · have hfront : front ≠ [] := by
        rintro rfl
        exact hempty hpieces
      rw [hpieces, leading_congr hfront hne (List.cons_ne_nil [] []), List.filterMap_append]
      simp [Component.ofPiece?]

theorem mem_components_below_iff {component : Component} (hfolder : folder.text ≠ [])
    (hnames : ∀ name ∈ names, Workspace.IsName name) (h : ∀ text, component ≠ .name text) :
    component ∈ (folder.below names).components ↔ component ∈ folder.components := by
  rw [components_below hfolder hnames, List.mem_append, or_iff_left]
  intro hmem
  obtain ⟨text, -, rfl⟩ := List.mem_map.mp hmem
  exact h text rfl

theorem afterLast_intercalate {name : Text} (front : Text) (hname : '/' ∉ name)
    (hnames : ∀ name ∈ names, '/' ∉ name) :
    Text.afterLast '/' (front ++ '/' :: ['/'].intercalate (names ++ [name])) = name := by
  induction names generalizing front with
  | nil => simpa using Text.afterLast_append_cons front hname
  | cons first names ih =>
      obtain ⟨second, others, hothers⟩ := List.exists_cons_of_ne_nil
        (List.append_ne_nil_of_right_ne_nil names (List.cons_ne_nil name []))
      have hsplit : front ++ '/' :: ['/'].intercalate (first :: names ++ [name]) =
          (front ++ '/' :: first) ++ '/' :: ['/'].intercalate (names ++ [name]) := by
        rw [List.cons_append, hothers, List.intercalate_cons_cons]
        simp
      rw [hsplit, ih _ (List.forall_mem_cons.mp hnames).2]

theorem exists_text_join_eq (hfolder : folder.text ≠ []) (name : Text) :
    ∃ front, (folder.join name).text = front ++ '/' :: name := by
  rw [join, if_neg (mt List.isEmpty_iff.mp hfolder)]
  split
  · rename_i hslash
    obtain ⟨front, hfront⟩ := List.getLast?_eq_some_iff.mp hslash
    exact ⟨front, by rw [hfront, List.append_assoc, List.singleton_append]⟩
  · exact ⟨folder.text, rfl⟩

theorem afterLast_below {name : Text} (hfolder : folder.text ≠ [])
    (hnames : ∀ part ∈ names ++ [name], Workspace.IsName part) :
    (folder.below (names ++ [name])).text.afterLast '/' = name := by
  rw [List.forall_mem_append, List.forall_mem_singleton] at hnames
  obtain ⟨front, hfront⟩ := exists_text_join_eq hfolder (['/'].intercalate (names ++ [name]))
  rw [below, if_neg (by simp), hfront]
  exact afterLast_intercalate front hnames.2.slash_not_mem
    fun part hpart => (hnames.1 part hpart).slash_not_mem

end Below

section Extension

/-- The name ends with a dot and the extension, and it has something before that dot. -/
def HasExtension (name extension : Text) : Prop :=
  ∃ stem, stem ≠ [] ∧ name = stem ++ '.' :: extension ∧ '.' ∉ extension

theorem extension?_eq_some_iff {extension : Text} :
    path.extension? = some extension ↔ HasExtension (path.text.afterLast '/') extension := by
  rw [extension?]
  generalize path.text.afterLast '/' = name
  simp only [Option.ite_none_right_eq_some, Option.some_inj]
  constructor
  · rintro ⟨hlt, rfl⟩
    have hdot : '.' ∈ name := by
      by_contra hdot
      rw [Text.afterLast_of_not_mem hdot] at hlt
      omega
    obtain ⟨stem, hname, hrest⟩ := Text.exists_eq_append_afterLast hdot
    refine ⟨stem, ?_, hname, hrest⟩
    rintro rfl
    rw [List.nil_append] at hname
    have hlength := congrArg List.length hname
    rw [List.length_cons] at hlength
    omega
  · rintro ⟨stem, hstem, rfl, hdot⟩
    rw [Text.afterLast_append_cons stem hdot]
    have hpos := List.length_pos_iff.mpr hstem
    refine ⟨?_, rfl⟩
    rw [List.length_append, List.length_cons]
    omega

theorem any_extension?_below_iff {name : Text} {extensions : List Text} (hfolder : folder.text ≠ [])
    (hnames : ∀ part ∈ names ++ [name], Workspace.IsName part) :
    (folder.below (names ++ [name])).extension?.any extensions.contains = true ↔
      ∃ extension, HasExtension name extension ∧ extension ∈ extensions := by
  simp only [Option.any_eq_true, extension?_eq_some_iff, afterLast_below hfolder hnames,
    List.contains_iff_mem]

end Extension

section Beginning

/-- Both paths begin at the root, both with a dot, or neither of them so. -/
@[mk_iff]
structure BeginAlike (p q : Path) : Prop where
  root_iff : .root ∈ p.components ↔ .root ∈ q.components
  here_iff : .here ∈ p.components ↔ .here ∈ q.components

instance (p q : Path) : Decidable (p.BeginAlike q) :=
  decidable_of_iff _ (beginAlike_iff p q).symm

theorem leading_cases (pieces : List Text) :
    leading pieces = [] ∨ leading pieces = [.root] ∨ leading pieces = [.here] := by
  rw [leading]
  split
  · exact .inl rfl
  · cases pieces with
    | nil => exact .inl rfl
    | cons first others =>
        simp only [List.head?_cons, Option.elim_some, opening]
        split
        · exact .inr (.inl rfl)
        · split
          · exact .inr (.inr rfl)
          · exact .inl rfl

theorem eq_up_or_name {component : Component}
    (h : component ∈ path.pieces.filterMap Component.ofPiece?) :
    component = .up ∨ ∃ text, component = .name text := by
  obtain ⟨piece, -, hpiece⟩ := List.mem_filterMap.mp h
  rw [Component.ofPiece?] at hpiece
  split at hpiece
  · cases hpiece
  · split at hpiece
    · exact .inl (Option.some.inj hpiece).symm
    · exact .inr ⟨piece, (Option.some.inj hpiece).symm⟩

theorem mem_components_iff {component : Component} (hup : component ≠ .up)
    (hname : ∀ text, component ≠ .name text) :
    component ∈ path.components ↔ component ∈ leading path.pieces := by
  rw [components_eq, List.mem_append, or_iff_left]
  intro hmem
  rcases eq_up_or_name hmem with heq | ⟨text, heq⟩
  · exact hup heq
  · exact hname text heq

theorem BeginAlike.leading_eq {p q : Path} (h : BeginAlike p q) :
    leading p.pieces = leading q.pieces := by
  have hroot := h.root_iff
  have hhere := h.here_iff
  rw [mem_components_iff (by simp) (by simp), mem_components_iff (by simp) (by simp)] at hroot hhere
  rcases leading_cases p.pieces with hp | hp | hp <;>
    rcases leading_cases q.pieces with hq | hq | hq <;> simp_all

theorem beginAlike_below_iff {p q : Path} {names names' : List Text} (hp : p.text ≠ [])
    (hq : q.text ≠ []) (hnames : ∀ name ∈ names, Workspace.IsName name)
    (hnames' : ∀ name ∈ names', Workspace.IsName name) :
    (p.below names).BeginAlike (q.below names') ↔ p.BeginAlike q := by
  rw [beginAlike_iff, beginAlike_iff, mem_components_below_iff hp hnames (by simp),
    mem_components_below_iff hq hnames' (by simp), mem_components_below_iff hp hnames (by simp),
    mem_components_below_iff hq hnames' (by simp)]

theorem exists_components_eq (h : .up ∉ path.components) :
    ∃ names : List Text, path.components = leading path.pieces ++ names.map .name := by
  rw [components_eq, List.mem_append, not_or] at h
  have hrange : path.pieces.filterMap Component.ofPiece? ∈ Set.range (List.map Component.name) := by
    rw [Set.range_list_map]
    intro component hmem
    rcases eq_up_or_name hmem with rfl | ⟨text, rfl⟩
    · exact absurd hmem h.2
    · exact ⟨text, rfl⟩
  obtain ⟨names, hnames⟩ := hrange
  exact ⟨names, by rw [components_eq, hnames]⟩

end Beginning

end Path

namespace Workspace

variable {workspace : Workspace} {path p q : Path} {paths : List Path}
  {location next : Location} {piece : Text} {pieces : List Text}

theorem foldl_follow_of_step (h : workspace.step location piece = .ok next) :
    ([piece].filterMap Component.ofPiece?).foldl Component.follow location = next := by
  rw [step] at h
  split at h
  · split at h
    · rename_i hskip
      simpa [Component.ofPiece?, hskip] using h
    · rename_i hcounts
      split at h
      · rename_i hup
        simpa [hup, Component.ofPiece?, Component.follow] using h
      · rename_i hname
        simpa [Component.ofPiece?, hcounts, hname, Component.follow] using h
  · split at h
    · cases h
    · cases h

theorem foldl_follow_of_foldlM (h : pieces.foldlM workspace.step location = .ok next) :
    (pieces.filterMap Component.ofPiece?).foldl Component.follow location = next := by
  induction pieces generalizing location with
  | nil => exact Except.ok.inj h
  | cons piece pieces ih =>
      rw [List.foldlM_cons] at h
      cases hstep : workspace.step location piece with
      | error fault =>
          rw [hstep] at h
          cases h
      | ok middle =>
          rw [hstep] at h
          rw [← List.singleton_append, List.filterMap_append, List.foldl_append,
            foldl_follow_of_step hstep]
          exact ih h

theorem foldl_follow_leading (h : path.text ≠ []) :
    (Path.leading path.pieces).foldl Component.follow workspace.current =
      workspace.origin path := by
  obtain ⟨text⟩ := path
  obtain ⟨c, cs, rfl⟩ := List.exists_cons_of_ne_nil h
  obtain ⟨first, others, hsplit⟩ :=
    List.exists_cons_of_ne_nil (List.splitOnP_ne_nil (fun c => decide (c = '/')) cs)
  rw [Path.pieces, List.splitOnP_cons_eq_if_modifyHead, hsplit, origin, Path.isAbsolute]
  by_cases hc : c = '/'
  · simp [hc, Path.leading, Path.opening, Component.follow]
  · have hopening : (Path.opening (c :: first)).foldl Component.follow workspace.current =
        workspace.current := by
      rw [Path.opening, if_neg (List.cons_ne_nil c first)]
      split
      · rfl
      · rfl
    simpa [hc, Path.leading] using hopening

theorem text_ne_nil_of_resolve (h : workspace.resolve path = .ok location) : path.text ≠ [] := by
  intro htext
  simp [resolve, htext] at h

theorem foldl_follow_of_resolve (h : workspace.resolve path = .ok location) :
    path.components.foldl Component.follow workspace.current = location := by
  have htext := text_ne_nil_of_resolve h
  rw [resolve_of_ne_nil htext] at h
  rw [Path.components_eq, List.foldl_append, foldl_follow_leading htext]
  exact foldl_follow_of_foldlM h

theorem eq_of_components_eq {location' : Location} (h : workspace.resolve p = .ok location)
    (h' : workspace.resolve q = .ok location') (heq : p.components = q.components) :
    location = location' := by
  rw [← foldl_follow_of_resolve h, ← foldl_follow_of_resolve h', heq]

theorem components_eq_iff (hp : .up ∉ p.components) (hq : .up ∉ q.components)
    (h : workspace.resolve p = .ok location) (h' : workspace.resolve q = .ok location) :
    p.components = q.components ↔ p.BeginAlike q := by
  constructor
  · intro heq
    exact ⟨by rw [heq], by rw [heq]⟩
  · intro halike
    obtain ⟨names, hnames⟩ := Path.exists_components_eq hp
    obtain ⟨names', hnames'⟩ := Path.exists_components_eq hq
    have hlocation := (foldl_follow_of_resolve h).trans (foldl_follow_of_resolve h').symm
    rw [hnames, hnames', halike.leading_eq, List.foldl_append, List.foldl_append,
      Component.foldl_follow_names, Component.foldl_follow_names] at hlocation
    rw [hnames, hnames', halike.leading_eq, List.append_cancel_left hlocation]

/-- A list of paths in order names each location once exactly if different spellings lead to
different locations. -/
theorem separate_sorted_iff
    (h : ∀ path ∈ paths, ∃ location, workspace.resolve path = .ok location) :
    Separate workspace (Path.sorted paths) ↔
      ∀ p ∈ paths, ∀ q ∈ paths, workspace.resolve p = workspace.resolve q →
        p.components = q.components := by
  have hresolve : ∀ p ∈ paths, ∀ q ∈ paths, p.same q = true →
      workspace.resolve p = workspace.resolve q := by
    intro p hp q hq hsame
    obtain ⟨location, hlocation⟩ := h p hp
    obtain ⟨location', hlocation'⟩ := h q hq
    rw [hlocation, hlocation', eq_of_components_eq hlocation hlocation' (beq_iff_eq.mp hsame)]
  constructor
  · intro hseparate p hp q hq heq
    obtain ⟨p', hp', hpsame⟩ := Path.exists_same_mem_sorted hp
    obtain ⟨q', hq', hqsame⟩ := Path.exists_same_mem_sorted hq
    have hmem := Path.mem_of_mem_sorted hp'
    have hmem' := Path.mem_of_mem_sorted hq'
    obtain ⟨location, hlocation⟩ := h p' hmem
    have hlocation' : workspace.resolve q' = .ok location := by
      rw [← hresolve q hq q' hmem' hqsame, ← heq, hresolve p hp p' hmem hpsame, hlocation]
    have hkept : p' = q' := by
      by_contra hne
      have hsymm : Std.Symm fun p q => ∀ location, workspace.resolve p = .ok location →
          workspace.resolve q ≠ .ok location :=
        ⟨fun _ _ hpair location hq hp => hpair location hp hq⟩
      exact List.Pairwise.forall hseparate hp' hq' hne location hlocation hlocation'
    calc p.components = p'.components := beq_iff_eq.mp hpsame
      _ = q'.components := by rw [hkept]
      _ = q.components := (beq_iff_eq.mp hqsame).symm
  · intro hspelled
    refine Distinguishes.separate_sorted ⟨hresolve, fun p hp q hq _ heq => ?_⟩
    exact beq_iff_eq.mpr (hspelled p hp q hq heq)

end Workspace

end LogTemplate
