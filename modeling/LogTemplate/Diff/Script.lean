/-!
Comparing two lists. The search for a shortest script goes from both ends at once, diagonal by
diagonal, to a point in the middle, and then works on both halves in the same way. In the end every
insertion is moved down as far as the kept elements around it allow.
-/

namespace LogTemplate.Diff

inductive Mark where
  | keep
  | remove
  | insert
  deriving DecidableEq, Repr

/-- The elements of both lists, in order, each with its mark. -/
abbrev Script (α : Type) := List (Mark × α)

/-- A step from one list to the other. An insertion keeps its elements together, and moves as one
when it is moved. -/
inductive Step (α : Type) where
  | keep (item : α)
  | remove (item : α)
  | insert (items : List α)
  deriving DecidableEq, Repr

/-- The steps that replace some elements by others. -/
def replace {α : Type} (removed inserted : List α) : List (Step α) :=
  removed.map .remove ++ if inserted.isEmpty then [] else [.insert inserted]

section

variable {α : Type} [DecidableEq α]

/-- The number of elements that two lists start with alike. -/
def sharedFront : List α → List α → Nat
  | a :: as, b :: bs => if a = b then sharedFront as bs + 1 else 0
  | _, _ => 0

/-- The furthest points that have been reached on the diagonals, from the front and from the back.
The entry of diagonal `k` stands at place `k + offset`. -/
structure Frontiers where
  offset : Nat
  front : Array Nat
  back : Array Nat

/-- How far a search has come on a diagonal. -/
def reached (offset : Nat) (points : Array Nat) (k : Int) : Nat :=
  points.getD (k + offset).toNat 0

/-- The points with the entry of one diagonal changed. -/
def advance (offset : Nat) (points : Array Nat) (k : Int) (x : Nat) : Array Nat :=
  points.setIfInBounds (k + offset).toNat x

/-- Where a path with `d` changes enters diagonal `k`: from the neighbour that has come further. -/
def entryPoint (offset : Nat) (points : Array Nat) (d : Nat) (k : Int) : Nat :=
  if k = -d ∨ (k ≠ d ∧ reached offset points (k - 1) < reached offset points (k + 1)) then
    reached offset points (k + 1)
  else reached offset points (k - 1) + 1

/-- The diagonals of paths with `d` changes, from the highest. -/
def diagonals (d : Nat) : List Int :=
  (List.range (d + 1)).map fun (i : Nat) => (d : Int) - 2 * i

/-- The number of elements alike from the point of diagonal `k` on. -/
def slide (as bs : List α) (x : Nat) (k : Int) : Nat :=
  let y := (x : Int) - k
  if 0 ≤ y then sharedFront (as.drop x) (bs.drop y.toNat) else 0

/-- One step of the search from the front. It ends with the start of the slide when that meets the
search from the back, which is possible if the lengths differ by an odd number. -/
def stepFront (as bs : List α) (d : Nat) (state : Frontiers) (k : Int) :
    Except (Nat × Nat) Frontiers :=
  let delta := (as.length : Int) - bs.length
  let x := entryPoint state.offset state.front d k
  let x' := x + slide as bs x k
  if delta % 2 ≠ 0 ∧ (k - delta).natAbs < d ∧
      as.length ≤ x' + reached state.offset state.back (delta - k) then
    .error (x, ((x : Int) - k).toNat)
  else .ok { state with front := advance state.offset state.front k x' }

/-- One step of the search from the back, on the reversed lists. It ends with the end of the slide
when that meets the search from the front, which is possible if the lengths differ by an even
number. -/
def stepBack (sa sb : List α) (d : Nat) (state : Frontiers) (k : Int) :
    Except (Nat × Nat) Frontiers :=
  let delta := (sa.length : Int) - sb.length
  let x := entryPoint state.offset state.back d k
  let x' := x + slide sa sb x k
  if delta % 2 = 0 ∧ (k - delta).natAbs ≤ d ∧
      sa.length ≤ x' + reached state.offset state.front (delta - k) then
    .error (sa.length - x', sb.length - ((x' : Int) - k).toNat)
  else .ok { state with back := advance state.offset state.back k x' }

/-- A point in the middle of a shortest path, as a number of elements of each list. -/
def middle? (as bs : List α) : Option (Nat × Nat) :=
  let bound := (as.length + bs.length + 1) / 2 + 1
  let points := Array.replicate (2 * bound + 1) 0
  let start : Frontiers := { offset := bound, front := points, back := points }
  let round (state : Frontiers) (d : Nat) : Except (Nat × Nat) Frontiers := do
    let state ← (diagonals d).foldlM (stepFront as bs d) state
    (diagonals d).foldlM (stepBack as.reverse bs.reverse d) state
  match (List.range bound).foldlM round start with
  | .error point => some point
  | .ok _ => none

/-- The steps of a shortest way between two lists, found in at most `fuel` halvings. -/
def shortest : Nat → List α → List α → List (Step α)
  | 0, as, bs => replace as bs
  | fuel + 1, as, bs =>
      let front := sharedFront as bs
      let (kept, as, bs) := (as.take front, as.drop front, bs.drop front)
      let back := sharedFront as.reverse bs.reverse
      let as' := as.take (as.length - back)
      let bs' := bs.take (bs.length - back)
      let changed :=
        if as'.isEmpty ∨ bs'.isEmpty then replace as' bs'
        else
          match middle? as' bs' with
          | some (x, y) =>
              shortest fuel (as'.take x) (bs'.take y) ++ shortest fuel (as'.drop x) (bs'.drop y)
          | none => replace as' bs'
      kept.map .keep ++ changed ++ (as.drop (as.length - back)).map .keep

/-- An insertion moved up: what stays above it, the nearest step first; the inserted elements; and
what lies below it. Removals are passed, and other insertions are taken along. -/
def slideUp : List (Step α) → List α → List (Step α) → List (Step α) × List α × List (Step α)
  | [], items, below => ([], items, below)
  | .keep a :: above, items, below =>
      if items.getLast? = some a then slideUp above (a :: items.dropLast) (.keep a :: below)
      else (.keep a :: above, items, below)
  | .remove a :: above, items, below => slideUp above items (.remove a :: below)
  | .insert others :: above, items, below => slideUp above (others ++ items) below

/-- An insertion moved down. -/
def slideDown : List (Step α) → List α → List (Step α) → List (Step α) × List α × List (Step α)
  | above, items, [] => (above, items, [])
  | above, items, .keep a :: below =>
      if items.head? = some a then slideDown (.keep a :: above) (items.tail ++ [a]) below
      else (above, items, .keep a :: below)
  | above, items, .remove a :: below => slideDown (.remove a :: above) items below
  | above, items, .insert others :: below => slideDown above (items ++ others) below

/-- The steps with every insertion moved up and then down, given those that are done, the nearest
one first. Insertions that meet become one, so that `fuel` need not be large. -/
def settle : Nat → List (Step α) → List (Step α) → List (Step α)
  | 0, above, below => above.reverse ++ below
  | _ + 1, above, [] => above.reverse
  | fuel + 1, above, .insert items :: below =>
      let (above, items, below) := slideUp above items below
      let (above, items, below) := slideDown above items below
      settle fuel (.insert items :: above) below
  | fuel + 1, above, step :: below => settle fuel (step :: above) below

/-- The script of some steps, with the removed elements before the inserted ones between any two
kept ones. The first argument holds the elements inserted since the last kept one. -/
def script : List α → List (Step α) → Script α
  | inserted, [] => inserted.map (.insert, ·)
  | inserted, .keep a :: steps => inserted.map (.insert, ·) ++ (.keep, a) :: script [] steps
  | inserted, .remove a :: steps => (.remove, a) :: script inserted steps
  | inserted, .insert items :: steps => script (inserted ++ items) steps

/-- The script that is shown for two lists. -/
def compare (old new : List α) : Script α :=
  let steps := shortest (old.length + new.length) old new
  script [] (settle ((steps.length + 1) * (steps.length + 1)) [] steps)

end

end LogTemplate.Diff
