import LogTemplate.Path
import Mathlib.Data.List.Lex

namespace LogTemplate

namespace Component

theorem key_injective : Function.Injective key := by
  intro a b h
  cases a with
  | root => cases b <;> simp [key] at h ⊢
  | here => cases b <;> simp [key] at h ⊢
  | up => cases b <;> simp [key] at h ⊢
  | name text =>
      cases b with
      | name text' =>
          have htext := List.map_injective_iff.mpr (fun _ _ => Char.toNat_inj.mp)
            (List.cons.inj h).2
          rw [htext]
      | root => simp [key] at h
      | here => simp [key] at h
      | up => simp [key] at h

theorem lt_iff {a b : Component} : lt a b = true ↔ a.key < b.key := by
  have hblt : Nat.blt = fun a b => decide (a < b) := by
    funext a b
    rw [Bool.eq_iff_iff, Nat.blt_eq, decide_eq_true_eq]
  rw [lt, hblt, List.lex_eq_true_iff_lt]

theorem lex_lt_iff {u v : List Component} :
    List.lex u v lt = true ↔ u.map key < v.map key := by
  induction u generalizing v with
  | nil => cases v <;> simp [List.lex]
  | cons a u ih =>
      cases v with
      | nil => simp [List.lex]
      | cons b v =>
          rw [List.map_cons, List.map_cons, List.cons_lt_cons_iff, ← lt_iff, ← ih,
            key_injective.eq_iff]
          simp [List.lex]

end Component

namespace Path

/-- The keys of the components, which paths are compared by. -/
def rank (path : Path) : List (List Nat) :=
  path.components.map Component.key

theorem le_iff {p q : Path} : p.le q = true ↔ p.rank ≤ q.rank := by
  rw [le, Bool.not_eq_true', ← Bool.not_eq_true, Component.lex_lt_iff, not_lt]
  rfl

theorem same_iff {p q : Path} : p.same q = true ↔ p.rank = q.rank := by
  rw [same, beq_iff_eq, rank, rank, (List.map_injective_iff.mpr Component.key_injective).eq_iff]

theorem exists_dropRepeats_cons (path : Path) (paths : List Path) :
    ∃ rest, dropRepeats (path :: paths) = path :: rest := by
  rw [dropRepeats]
  split
  · exact ⟨[], rfl⟩
  · split
    · exact ⟨_, rfl⟩
    · exact ⟨_, rfl⟩

theorem dropRepeats_subset (paths : List Path) : dropRepeats paths ⊆ paths := by
  induction paths with
  | nil => exact List.Subset.refl _
  | cons path paths ih =>
      intro other hother
      rw [dropRepeats] at hother
      split at hother
      · rw [List.mem_singleton.mp hother]
        exact List.mem_cons_self
      · rename_i next rest hrest
        rw [hrest] at ih
        split at hother
        · rcases List.mem_cons.mp hother with rfl | hother
          · exact List.mem_cons_self
          · exact List.mem_cons_of_mem _ (ih (List.mem_cons_of_mem _ hother))
        · rcases List.mem_cons.mp hother with rfl | hother
          · exact List.mem_cons_self
          · exact List.mem_cons_of_mem _ (ih hother)

theorem exists_same_mem_dropRepeats {path : Path} {paths : List Path} (h : path ∈ paths) :
    ∃ kept ∈ dropRepeats paths, path.same kept = true := by
  induction paths with
  | nil => cases h
  | cons first paths ih =>
      obtain ⟨rest, hcons⟩ := exists_dropRepeats_cons first paths
      rcases List.mem_cons.mp h with rfl | hmem
      · exact ⟨path, by simp [hcons], same_iff.mpr rfl⟩
      · obtain ⟨kept, hkept, hsame⟩ := ih hmem
        rw [dropRepeats]
        split
        · rename_i hnil
          simp [hnil] at hkept
        · rename_i next others hnext
          rw [hnext] at hkept
          split
          · rename_i hrepeat
            rcases List.mem_cons.mp hkept with rfl | hkept
            · refine ⟨first, List.mem_cons_self, ?_⟩
              rw [same_iff] at hsame hrepeat ⊢
              rw [hsame, hrepeat]
            · exact ⟨kept, List.mem_cons_of_mem _ hkept, hsame⟩
          · exact ⟨kept, List.mem_cons_of_mem _ hkept, hsame⟩

theorem dropRepeats_pairwise {paths : List Path} (h : paths.Pairwise fun p q => p.rank ≤ q.rank) :
    (dropRepeats paths).Pairwise fun p q => p.rank < q.rank := by
  induction paths with
  | nil => exact .nil
  | cons path paths ih =>
      obtain ⟨hpath, hpaths⟩ := List.pairwise_cons.mp h
      have hrest := ih hpaths
      rw [dropRepeats]
      split
      · exact List.pairwise_singleton _ _
      · rename_i next rest hnext
        rw [hnext] at hrest
        have hle : path.rank ≤ next.rank :=
          hpath next (dropRepeats_subset paths (by simp [hnext]))
        obtain ⟨hlt, hothers⟩ := List.pairwise_cons.mp hrest
        split
        · exact List.pairwise_cons.mpr
            ⟨fun other hother => hle.trans_lt (hlt other hother), hothers⟩
        · rename_i hdiffer
          have hstrict : path.rank < next.rank :=
            lt_of_le_of_ne hle fun heq => hdiffer (same_iff.mpr heq)
          refine List.pairwise_cons.mpr ⟨?_, hrest⟩
          intro other hother
          rcases List.mem_cons.mp hother with rfl | hother
          · exact hstrict
          · exact hstrict.trans (hlt other hother)

theorem mem_of_mem_sorted {path : Path} {paths : List Path} (h : path ∈ sorted paths) :
    path ∈ paths :=
  (List.mergeSort_perm paths le).mem_iff.mp (dropRepeats_subset _ h)

theorem exists_same_mem_sorted {path : Path} {paths : List Path} (h : path ∈ paths) :
    ∃ kept ∈ sorted paths, path.same kept = true :=
  exists_same_mem_dropRepeats ((List.mergeSort_perm paths le).mem_iff.mpr h)

theorem sorted_pairwise (paths : List Path) :
    (sorted paths).Pairwise fun p q => p.rank < q.rank := by
  apply dropRepeats_pairwise
  have hsorted : (paths.mergeSort le).Pairwise fun p q => p.le q = true := by
    apply List.pairwise_mergeSort
    · intro p q r hpq hqr
      exact le_iff.mpr ((le_iff.mp hpq).trans (le_iff.mp hqr))
    · intro p q
      rw [Bool.or_eq_true, le_iff, le_iff]
      exact le_total p.rank q.rank
  exact hsorted.imp le_iff.mp

theorem sorted_eq_singleton {path : Path} {paths : List Path} (hne : paths ≠ [])
    (h : ∀ other ∈ paths, other = path) : sorted paths = [path] := by
  obtain ⟨first, rest, rfl⟩ := List.exists_cons_of_ne_nil hne
  obtain ⟨kept, hkept, -⟩ := exists_same_mem_sorted (List.mem_cons_self (a := first) (l := rest))
  have hall : ∀ other ∈ sorted (first :: rest), other = path :=
    fun other hother => h other (mem_of_mem_sorted hother)
  have hpairwise := sorted_pairwise (first :: rest)
  cases hsorted : sorted (first :: rest) with
  | nil => simp [hsorted] at hkept
  | cons p others =>
      rw [hsorted, List.forall_mem_cons] at hall
      rw [hsorted] at hpairwise
      cases others with
      | nil => rw [hall.1]
      | cons q others =>
          have hlt := (List.pairwise_cons.mp hpairwise).1 q List.mem_cons_self
          rw [hall.1, hall.2 q List.mem_cons_self] at hlt
          exact absurd hlt (lt_irrefl _)

end Path

end LogTemplate
