import LogTemplate.Path
import Mathlib.Logic.Relation
import Mathlib.Tactic.Tauto

namespace LogTemplate.Path

variable {path folder : Path} {piece : Text} {pieces front : List Text}

section Pieces

theorem pieces_ne_nil (path : Path) : path.pieces ≠ [] :=
  List.splitOnP_ne_nil _ _

theorem slash_not_mem_of_mem_pieces (h : piece ∈ path.pieces) : '/' ∉ piece := by
  obtain ⟨text⟩ := path
  simp only [pieces] at h
  induction text generalizing piece with
  | nil =>
      rw [List.splitOnP_nil, List.mem_singleton] at h
      simp [h]
  | cons c text ih =>
      rw [List.splitOnP_cons_eq_if_modifyHead] at h
      split at h
      · rcases List.mem_cons.mp h with rfl | h
        · exact List.not_mem_nil
        · exact ih h
      · rename_i hc
        obtain ⟨first, others, hsplit⟩ :=
          List.exists_cons_of_ne_nil (List.splitOnP_ne_nil (fun c => decide (c = '/')) text)
        rw [hsplit, List.modifyHead_cons] at h
        rcases List.mem_cons.mp h with rfl | h
        · have hfirst : '/' ∉ first := ih (by rw [hsplit]; exact List.mem_cons_self)
          simp only [List.mem_cons, not_or]
          exact ⟨fun heq => hc (by simp [← heq]), hfirst⟩
        · exact ih (by rw [hsplit]; exact List.mem_cons_of_mem _ h)

theorem pieces_intercalate (hslash : ∀ piece ∈ pieces, '/' ∉ piece) (hne : pieces ≠ []) :
    Path.pieces ⟨['/'].intercalate pieces⟩ = pieces :=
  List.splitOn_intercalate '/' hslash hne

/-- The component that the first piece of a path stands for as such. -/
def opening (piece : Text) : List Component :=
  if piece = [] then [.root] else if piece = ['.'] then [.here] else []

/-- The component that stands for the beginning of a path, given its pieces. The one piece of an
empty path stands for none. -/
def leading (pieces : List Text) : List Component :=
  if pieces = [[]] then [] else pieces.head?.elim [] opening

theorem components_eq (path : Path) :
    path.components = leading path.pieces ++ path.pieces.filterMap Component.ofPiece? := by
  rw [components]
  congr 1
  split
  · rename_i first second others heq
    simp [leading, opening, heq]
  · rename_i others heq
    simp [leading, opening, heq]
  · rename_i hroot hhere
    obtain ⟨first, others, heq⟩ := List.exists_cons_of_ne_nil path.pieces_ne_nil
    by_cases hfirst : first = []
    · subst hfirst
      cases others with
      | nil => simp [leading, heq]
      | cons second others => exact absurd heq (hroot second others)
    · have hdot : first ≠ ['.'] := fun hdot => hhere others (by rw [heq, hdot])
      simp [leading, opening, heq, hfirst, hdot]

theorem leading_append (hnil : front ≠ []) (hempty : front ≠ [[]]) (more : List Text) :
    leading (front ++ more) = leading front := by
  obtain ⟨first, others, rfl⟩ := List.exists_cons_of_ne_nil hnil
  have hlonger : first :: others ++ more ≠ [[]] := by
    intro heq
    obtain ⟨rfl, hothers⟩ := List.cons.inj heq
    obtain ⟨rfl, -⟩ := List.append_eq_nil_iff.mp hothers
    exact hempty rfl
  rw [leading, leading, if_neg hlonger, if_neg hempty]
  rfl

theorem length_components_le (path : Path) :
    path.components.length ≤ path.pieces.length + 1 := by
  have hleading : (leading path.pieces).length ≤ 1 := by
    obtain ⟨first, others, heq⟩ := List.exists_cons_of_ne_nil path.pieces_ne_nil
    rw [leading, heq]
    split
    · exact Nat.zero_le 1
    · simp only [opening, List.head?_cons, Option.elim_some]
      split
      · exact Nat.le_refl 1
      · split
        · exact Nat.le_refl 1
        · exact Nat.zero_le 1
  have hothers := List.length_filterMap_le Component.ofPiece? path.pieces
  rw [components_eq, List.length_append]
  omega

end Pieces

section Parent

theorem exists_append_dropTail (h : pieces ≠ []) :
    ∃ skipped, pieces = skipped ++ dropTail pieces ∧
      (∀ piece ∈ skipped, Component.ofPiece? piece = none) ∧
      ∃ piece rest, dropTail pieces = piece :: rest ∧
        (rest = [] ∨ Component.ofPiece? piece ≠ none) := by
  fun_induction dropTail pieces with
  | case1 => exact absurd rfl h
  | case2 piece => exact ⟨[], rfl, by simp, piece, [], rfl, .inl rfl⟩
  | case3 piece rest hrest hnone ih =>
      obtain ⟨skipped, heq, hskipped, hlast⟩ := ih (by rintro rfl; exact hrest rfl)
      refine ⟨piece :: skipped, by rw [List.cons_append, ← heq], ?_, hlast⟩
      exact List.forall_mem_cons.mpr ⟨hnone, hskipped⟩
  | case4 piece rest hrest hsome => exact ⟨[], rfl, by simp, piece, rest, rfl, .inr hsome⟩

theorem exists_pieces_eq (pieces : List Text) (h : pieces ≠ []) :
    ∃ init last skipped, pieces = init ++ last :: skipped ∧
      dropTail pieces.reverse = last :: init.reverse ∧
      (∀ piece ∈ skipped, Component.ofPiece? piece = none) ∧
      (init = [] ∨ Component.ofPiece? last ≠ none) := by
  obtain ⟨skipped, heq, hskipped, last, rest, hlast, hcounts⟩ :=
    exists_append_dropTail (List.reverse_ne_nil_iff.mpr h)
  refine ⟨rest.reverse, last, skipped.reverse, ?_, by rw [hlast, List.reverse_reverse], ?_, ?_⟩
  · rw [hlast, List.reverse_eq_iff] at heq
    rw [heq]
    simp
  · exact fun piece hpiece => hskipped piece (List.mem_reverse.mp hpiece)
  · rwa [List.reverse_eq_nil_iff]

theorem filterMap_ofPiece?_append {skipped : List Text}
    (h : ∀ piece ∈ skipped, Component.ofPiece? piece = none) (front : List Text) :
    (front ++ skipped).filterMap Component.ofPiece? = front.filterMap Component.ofPiece? := by
  rw [List.filterMap_append, List.filterMap_eq_nil_iff.mpr h, List.append_nil]

theorem ne_root_of_ofPiece? {component : Component}
    (h : Component.ofPiece? piece = some component) : component ≠ .root := by
  rintro rfl
  rw [Component.ofPiece?] at h
  split at h
  · cases h
  · split at h
    · cases h
    · cases h

theorem parent?_of_singleton {last : Text} {skipped : List Text}
    (hpieces : path.pieces = last :: skipped)
    (hskipped : ∀ piece ∈ skipped, Component.ofPiece? piece = none)
    (hdrop : dropTail path.pieces.reverse = [last]) :
    (path.parent? = none ∧ (path.components = [] ∨ path.components = [.root])) ∨
      ∃ component, path.parent? = some ⟨[]⟩ ∧ path.components = [component] ∧
        component ≠ .root := by
  have hfilter : path.pieces.filterMap Component.ofPiece? = (Component.ofPiece? last).toList := by
    rw [hpieces, ← List.singleton_append, filterMap_ofPiece?_append hskipped]
    cases h : Component.ofPiece? last <;> simp [h]
  rw [components_eq, hfilter]
  by_cases hlast : last = []
  · subst hlast
    refine .inl ⟨by rw [parent?, hdrop], ?_⟩
    cases skipped with
    | nil => exact .inl (by rw [hpieces]; rfl)
    | cons piece skipped => exact .inr (by rw [hpieces]; rfl)
  · have hparent : path.parent? = some ⟨[]⟩ := by
      rw [parent?, hdrop]
      cases last with
      | nil => exact absurd rfl hlast
      | cons c cs => rfl
    have hsingle : [last] ≠ [[]] := by simpa using hlast
    have hleading : leading path.pieces = opening last := by
      rw [hpieces, ← List.singleton_append, leading_append (by simp) hsingle, leading,
        if_neg hsingle]
      rfl
    rw [hleading, hparent, opening, if_neg hlast]
    by_cases hdot : last = ['.']
    · subst hdot
      exact .inr ⟨.here, rfl, rfl, by simp⟩
    · rw [if_neg hdot]
      obtain ⟨component, hcomponent⟩ : ∃ component, Component.ofPiece? last = some component := by
        rw [Component.ofPiece?, if_neg (not_or.mpr ⟨hlast, hdot⟩)]
        split
        · exact ⟨_, rfl⟩
        · exact ⟨_, rfl⟩
      exact .inr ⟨component, rfl, by rw [hcomponent]; rfl, ne_root_of_ofPiece? hcomponent⟩

theorem exists_parent?_of_append {init skipped : List Text} {last : Text} {component : Component}
    (hpieces : path.pieces = init ++ last :: skipped) (hinit : init ≠ [])
    (hskipped : ∀ piece ∈ skipped, Component.ofPiece? piece = none)
    (hdrop : dropTail path.pieces.reverse = last :: init.reverse)
    (hlast : Component.ofPiece? last = some component) :
    ∃ folder, path.parent? = some folder ∧ path.components = folder.components ++ [component] := by
  have hcomponents : path.components =
      leading path.pieces ++ init.filterMap Component.ofPiece? ++ [component] := by
    rw [components_eq, hpieces, ← List.singleton_append, ← List.append_assoc,
      filterMap_ofPiece?_append hskipped, List.filterMap_append, List.append_assoc]
    simp [hlast]
  obtain ⟨init', last', skipped', rfl, hdrop', hskipped', -⟩ := exists_pieces_eq init hinit
  have hfilter := filterMap_ofPiece?_append hskipped' (init' ++ [last'])
  rw [List.append_assoc, List.singleton_append] at hfilter
  have hparent : path.parent? =
      if init' = [] ∧ last' = [] then some ⟨['/']⟩
      else some ⟨['/'].intercalate (init' ++ [last'])⟩ := by
    obtain ⟨second, rest, hrest⟩ := List.exists_cons_of_ne_nil (List.reverse_ne_nil_iff.mpr hinit)
    rw [hrest] at hdrop hdrop'
    rw [parent?, hdrop]
    simp only [hdrop']
    split
    · rename_i heq
      obtain ⟨rfl, hreverse⟩ := List.cons.inj heq
      rw [if_pos ⟨List.reverse_eq_nil_iff.mp hreverse, rfl⟩]
    · rename_i hne
      rw [if_neg, List.reverse_cons, List.reverse_reverse]
      rintro ⟨rfl, rfl⟩
      exact hne rfl
  rw [hparent]
  by_cases hroot : init' = [] ∧ last' = []
  · refine ⟨⟨['/']⟩, if_pos hroot, ?_⟩
    obtain ⟨rfl, rfl⟩ := hroot
    rw [hcomponents, hfilter, hpieces]
    cases skipped' with
    | nil => rfl
    | cons piece skipped' => rfl
  · refine ⟨_, if_neg hroot, ?_⟩
    have hne : init' ++ [last'] ≠ [] := by simp
    have hempty : init' ++ [last'] ≠ [[]] := by
      intro heq
      cases init' with
      | nil => exact hroot ⟨rfl, by simpa using heq⟩
      | cons piece init' => simp at heq
    have hslash : ∀ piece ∈ init' ++ [last'], '/' ∉ piece := by
      intro piece hpiece
      have hmem : piece ∈ path.pieces := by
        rw [hpieces]
        simp only [List.mem_append, List.mem_cons, List.not_mem_nil, or_false] at hpiece ⊢
        tauto
      exact slash_not_mem_of_mem_pieces hmem
    have hleading : leading path.pieces = leading (init' ++ [last']) := by
      have happend : path.pieces = init' ++ [last'] ++ (skipped' ++ last :: skipped) := by
        rw [hpieces]
        simp
      rw [happend, leading_append hne hempty]
    rw [hcomponents, hleading, hfilter, components_eq, pieces_intercalate hslash hne]

theorem parent?_cases (path : Path) :
    (path.parent? = none ∧ (path.components = [] ∨ path.components = [.root])) ∨
      ∃ folder component, path.parent? = some folder ∧
        path.components = folder.components ++ [component] ∧ component ≠ .root := by
  obtain ⟨init, last, skipped, hpieces, hdrop, hskipped, hcounts⟩ :=
    exists_pieces_eq path.pieces path.pieces_ne_nil
  by_cases hinit : init = []
  · subst hinit
    rcases parent?_of_singleton hpieces hskipped hdrop with h | ⟨component, hparent, heq, hne⟩
    · exact .inl h
    · exact .inr ⟨⟨[]⟩, component, hparent, heq, hne⟩
  · obtain ⟨component, hlast⟩ := Option.ne_none_iff_exists'.mp (hcounts.resolve_left hinit)
    obtain ⟨folder, hparent, heq⟩ := exists_parent?_of_append hpieces hinit hskipped hdrop hlast
    exact .inr ⟨folder, component, hparent, heq, ne_root_of_ofPiece? hlast⟩

theorem components_of_parent? (h : path.parent? = some folder) :
    ∃ component, path.components = folder.components ++ [component] := by
  rcases path.parent?_cases with ⟨hnone, -⟩ | ⟨folder', component, hsome, heq, -⟩
  · rw [h] at hnone
    cases hnone
  · rw [h] at hsome
    exact ⟨component, by rw [heq, Option.some.inj hsome]⟩

end Parent

section Ancestors

@[elab_as_elim]
theorem induction_on_parent {motive : Path → Prop} (path : Path)
    (top : ∀ path, path.parent? = none → motive path)
    (below : ∀ path folder, path.parent? = some folder → motive folder → motive path) :
    motive path := by
  induction hlength : path.components.length generalizing path with
  | zero =>
      apply top
      cases hparent : path.parent? with
      | none => rfl
      | some folder =>
          obtain ⟨component, heq⟩ := components_of_parent? hparent
          simp [heq] at hlength
  | succ n ih =>
      cases hparent : path.parent? with
      | none => exact top path hparent
      | some folder =>
          obtain ⟨component, heq⟩ := components_of_parent? hparent
          refine below path folder hparent (ih folder ?_)
          simpa [heq] using hlength

/-- The second path is the first one or a folder above it. -/
def Above : Path → Path → Prop :=
  Relation.ReflTransGen fun path folder => path.parent? = some folder

theorem above_iff :
    Above path folder ↔
      path = folder ∨ ∃ next, path.parent? = some next ∧ Above next folder :=
  Relation.ReflTransGen.cases_head_iff

theorem above_iff_of_parent? {next : Path} (h : path.parent? = some next) :
    Above path folder ↔ path = folder ∨ Above next folder := by
  rw [above_iff, h]
  simp

theorem above_iff_eq (h : path.parent? = none) : Above path folder ↔ path = folder := by
  rw [above_iff, h]
  simp

theorem Above.prefix_components (h : Above path folder) :
    folder.components <+: path.components := by
  induction h using Relation.ReflTransGen.head_induction_on with
  | refl => exact List.prefix_refl _
  | head hparent _ ih =>
      obtain ⟨component, heq⟩ := components_of_parent? hparent
      rw [heq]
      exact ih.trans (List.prefix_append _ _)

theorem Above.antisymm (h : Above path folder) (h' : Above folder path) : path = folder := by
  rcases above_iff.mp h with heq | ⟨next, hparent, hnext⟩
  · exact heq
  · obtain ⟨component, heq⟩ := components_of_parent? hparent
    have hle := hnext.prefix_components.length_le
    have hge := h'.prefix_components.length_le
    rw [heq, List.length_append, List.length_singleton] at hge
    omega

/-- Above a path lie the folders with an initial part of its components, all of them but for the
empty part of an absolute path. -/
theorem exists_above_iff {parts : List Component} :
    (∃ folder, Above path folder ∧ folder.components = parts) ↔
      parts <+: path.components ∧ (path.components.head? = some .root → parts ≠ []) := by
  induction path using induction_on_parent generalizing parts with
  | top path hnone =>
      simp only [above_iff_eq hnone, exists_eq_left']
      rcases path.parent?_cases with ⟨-, heq | heq⟩ | ⟨folder, component, hsome, -⟩
      · rw [heq]
        simp [eq_comm]
      · rw [heq, List.prefix_cons_iff]
        constructor
        · rintro rfl
          exact ⟨.inr ⟨[], rfl, by simp⟩, fun _ => by simp⟩
        · rintro ⟨rfl | ⟨rest, rfl, hrest⟩, hne⟩
          · exact absurd rfl (hne rfl)
          · rw [List.prefix_nil.mp hrest]
      · rw [hnone] at hsome
        cases hsome
  | below path folder hparent ih =>
      rcases path.parent?_cases with ⟨hnone, -⟩ | ⟨folder', component, hsome, heq, hroot⟩
      · rw [hparent] at hnone
        cases hnone
      · obtain rfl := Option.some.inj (hparent.symm.trans hsome)
        have hhead : path.components.head? = some .root ↔
            folder.components.head? = some .root := by
          rw [heq]
          cases folder.components with
          | nil => simpa using hroot
          | cons first others => simp
        have hor : (∃ other, Above path other ∧ other.components = parts) ↔
            path.components = parts ∨ ∃ other, Above folder other ∧ other.components = parts := by
          simp only [above_iff_of_parent? hparent, or_and_right, exists_or, exists_eq_left']
        rw [hor, ih, hhead, heq, List.prefix_concat_iff]
        constructor
        · rintro (rfl | ⟨hfront, hne⟩)
          · exact ⟨.inl rfl, fun _ => by simp⟩
          · exact ⟨.inr hfront, hne⟩
        · rintro ⟨rfl | hfront, hne⟩
          · exact .inl rfl
          · exact .inr ⟨hfront, hne⟩

theorem parents_of_parent?_eq_none (h : path.parent? = none) (fuel : Nat) :
    parents fuel path = [] := by
  cases fuel with
  | zero => rfl
  | succ fuel => rw [parents, h]

theorem parents_stable {fuel fuel' : Nat} (h : path.components.length ≤ fuel)
    (h' : path.components.length ≤ fuel') : parents fuel path = parents fuel' path := by
  induction path using induction_on_parent generalizing fuel fuel' with
  | top path hnone =>
      rw [parents_of_parent?_eq_none hnone, parents_of_parent?_eq_none hnone]
  | below path folder hparent ih =>
      obtain ⟨component, heq⟩ := components_of_parent? hparent
      rw [heq, List.length_append, List.length_singleton] at h h'
      obtain ⟨n, rfl⟩ : ∃ n, fuel = n + 1 := Nat.exists_eq_add_one.mpr (by omega)
      obtain ⟨n', rfl⟩ : ∃ n', fuel' = n' + 1 := Nat.exists_eq_add_one.mpr (by omega)
      rw [parents, parents, hparent]
      simp only [List.cons.injEq, true_and]
      exact ih (by omega) (by omega)

theorem ancestors_of_parent?_eq_none (h : path.parent? = none) : path.ancestors = [path] := by
  rw [ancestors, parents_of_parent?_eq_none h]

theorem ancestors_of_parent? (h : path.parent? = some folder) :
    path.ancestors = path :: folder.ancestors := by
  obtain ⟨component, heq⟩ := components_of_parent? h
  have hpath := path.length_components_le
  rw [heq, List.length_append, List.length_singleton] at hpath
  rw [ancestors, ancestors, parents, h]
  simp only [List.cons.injEq, true_and]
  exact parents_stable (by omega) folder.length_components_le

theorem mem_ancestors_iff : folder ∈ path.ancestors ↔ Above path folder := by
  induction path using induction_on_parent with
  | top path hnone =>
      rw [ancestors_of_parent?_eq_none hnone, above_iff_eq hnone, List.mem_singleton, eq_comm]
  | below path next hparent ih =>
      rw [ancestors_of_parent? hparent, above_iff_of_parent? hparent, List.mem_cons, ih, eq_comm]

/-- The folder satisfies `p`, and none that lies between the path and the folder does. -/
structure Nearest (p : Path → Bool) (path folder : Path) : Prop where
  above : Above path folder
  holds : p folder = true
  first : ∀ nearer, Above path nearer → Above nearer folder → p nearer = true → nearer = folder

section Nearest

variable {p : Path → Bool}

theorem nearest_iff_eq (h : p path = true) : Nearest p path folder ↔ path = folder := by
  constructor
  · intro hnearest
    exact hnearest.first path .refl hnearest.above h
  · rintro rfl
    exact ⟨.refl, h, fun nearer habove hbelow _ => hbelow.antisymm habove⟩

theorem nearest_iff_of_parent? {next : Path} (h : p path = false)
    (hparent : path.parent? = some next) : Nearest p path folder ↔ Nearest p next folder := by
  have hne : ∀ {other}, p other = true → path ≠ other := by
    rintro _ hother rfl
    rw [h] at hother
    cases hother
  constructor
  · rintro ⟨habove, hholds, hfirst⟩
    refine ⟨((above_iff_of_parent? hparent).mp habove).resolve_left (hne hholds), hholds, ?_⟩
    intro nearer hnearer
    exact hfirst nearer ((above_iff_of_parent? hparent).mpr (.inr hnearer))
  · rintro ⟨habove, hholds, hfirst⟩
    refine ⟨(above_iff_of_parent? hparent).mpr (.inr habove), hholds, ?_⟩
    intro nearer hnearer hbelow hp
    have habove' := ((above_iff_of_parent? hparent).mp hnearer).resolve_left (hne hp)
    exact hfirst nearer habove' hbelow hp

theorem find?_ancestors_eq_some_iff :
    path.ancestors.find? p = some folder ↔ Nearest p path folder := by
  induction path using induction_on_parent with
  | top path hnone =>
      rw [ancestors_of_parent?_eq_none hnone]
      cases hp : p path with
      | true =>
          rw [nearest_iff_eq hp, List.find?_cons_of_pos hp, Option.some_inj]
      | false =>
          rw [List.find?_cons_of_neg (by simp [hp]), List.find?_nil]
          constructor
          · intro h
            cases h
          · rintro ⟨habove, hholds, -⟩
            rw [← (above_iff_eq hnone).mp habove, hp] at hholds
            cases hholds
  | below path next hparent ih =>
      rw [ancestors_of_parent? hparent]
      cases hp : p path with
      | true => rw [nearest_iff_eq hp, List.find?_cons_of_pos hp, Option.some_inj]
      | false =>
          rw [nearest_iff_of_parent? hp hparent, List.find?_cons_of_neg (by simp [hp]), ih]

theorem find?_ancestors_eq_none_iff :
    path.ancestors.find? p = none ↔ ∀ folder, Above path folder → p folder = false := by
  simp only [List.find?_eq_none, mem_ancestors_iff, Bool.not_eq_true]

end Nearest

end Ancestors

end LogTemplate.Path
