import LogTemplate.Logger
import LogTemplate.Proofs.Slicing.Call

namespace LogTemplate.Sliced

open Logger

/-- The offsets at which a part stands, from the left. Those inside an earlier place are passed
over: `skip` characters still are. The text starts at `offset`. -/
def placesFrom (part : Text) : Nat → Nat → Text → List Nat
  | _, _, [] => []
  | skip + 1, offset, c :: cs => placesFrom part skip (offset + c.utf8Size) cs
  | 0, offset, c :: cs =>
      if part.isPrefixOf (c :: cs) then
        offset :: placesFrom part (part.length - 1) (offset + c.utf8Size) cs
      else placesFrom part 0 (offset + c.utf8Size) cs

/-- No character of a name follows the part that stands at `offset`. -/
def endsAt (line part : Text) (offset : Nat) : Except BadSlice Bool := do
  let after ← sliceFrom line (offset + part.byteSize)
  return !(after.head?.map continuesName).getD false

def declares (line part : Text) : Except BadSlice Bool :=
  (placesFrom part 0 0 line).anyM (endsAt line part)

def declaredBy (types : LoggerTypes) (receiver : Text) (imported : Option Library) (line : Text) :
    Except BadSlice (Option Resolution) := do
  let line := normalize line
  if ← declares line (declaration types.standard receiver) then
    return some (.declared .standard)
  else if ← declares line (declaration types.log4j receiver) then
    return some (.declared .log4j)
  else if ← [types.standard, types.log4j].anyM fun type =>
      declares line (declaration (simpleName type) receiver) then
    return some ((imported.map Resolution.imported).getD .unresolved)
  else return none

def resolve (types : LoggerTypes) (lines : List Text) (receiver : Text) :
    Except BadSlice Resolution := do
  let (header, body) := splitHeader lines
  let found ← body.findSomeM? (declaredBy types receiver (lastImport types header))
  return found.getD .unresolved

theorem endsAt_eq_ok {line before part after : Text} (hline : line = before ++ (part ++ after)) :
    endsAt line part before.byteSize = .ok (!(after.head?.map continuesName).getD false) := by
  have hafter : sliceFrom line (before.byteSize + part.byteSize) = .ok after :=
    sliceFrom_eq_ok (u := before ++ part) (by rw [hline, List.append_assoc])
      (Text.byteSize_append before part).symm
  rw [endsAt, hafter]
  rfl

theorem anyM_placesFrom {line text : Text} (part before : Text) (skip : Nat)
    (hline : line = before ++ text) :
    (placesFrom part skip before.byteSize text).anyM (endsAt line part) =
      .ok (declaresFrom part skip text) := by
  induction text generalizing before skip with
  | nil => cases skip <;> rfl
  | cons c cs ih =>
      have hnext : ∀ skip, (placesFrom part skip (before.byteSize + c.utf8Size) cs).anyM
          (endsAt line part) = .ok (declaresFrom part skip cs) := by
        intro skip
        have hsize : (before ++ [c]).byteSize = before.byteSize + c.utf8Size := by simp
        rw [← hsize]
        exact ih (before ++ [c]) skip (by rw [hline, List.append_assoc, List.singleton_append])
      cases skip with
      | succ skip => exact hnext skip
      | zero =>
          rw [placesFrom, declaresFrom]
          split
          next hprefix =>
            obtain ⟨after, hafter⟩ := List.isPrefixOf_iff_prefix.mp hprefix
            have hends := endsAt_eq_ok (hafter ▸ hline)
            rw [List.anyM_cons, hends, ← hafter, List.drop_left]
            cases (after.head?.map continuesName).getD false with
            | false => rfl
            | true => exact hnext _
          next => exact hnext 0

theorem declares_eq_ok (line part : Text) : declares line part = .ok (Logger.declares line part) :=
  anyM_placesFrom part [] 0 rfl

theorem declaredBy_eq_ok (types : LoggerTypes) (receiver : Text) (imported : Option Library)
    (line : Text) :
    declaredBy types receiver imported line =
      .ok (Logger.declaredBy types receiver imported line) := by
  have hshort : ([types.standard, types.log4j].anyM fun type =>
      Except.ok (ε := BadSlice)
        (Logger.declares (normalize line) (declaration (simpleName type) receiver))) =
      .ok ([types.standard, types.log4j].any fun type =>
        Logger.declares (normalize line) (declaration (simpleName type) receiver)) :=
    List.anyM_pure
  rw [List.any_cons, List.any_cons, List.any_nil, Bool.or_false] at hshort
  simp only [declaredBy, Logger.declaredBy, declares_eq_ok, hshort, bind, Except.bind]
  split
  · rfl
  · split
    · rfl
    · split
      · rfl
      · rfl

theorem resolve_eq_ok (types : LoggerTypes) (lines : List Text) (receiver : Text) :
    resolve types lines receiver = .ok (Logger.resolve types lines receiver) := by
  rcases hheader : splitHeader lines with ⟨header, body⟩
  have hdeclared : declaredBy types receiver (lastImport types header) =
      fun line => pure (Logger.declaredBy types receiver (lastImport types header) line) := by
    funext line
    exact declaredBy_eq_ok types receiver _ line
  simp only [resolve, Logger.resolve, hheader, hdeclared, List.findSomeM?_pure]
  rfl

end LogTemplate.Sliced
