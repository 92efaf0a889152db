import LogTemplate.Proofs.Console.Fix

/-!
The commands on a tree of files tell one story. `check` counts what is offered, `fix` without
writing counts what edits do to a text in memory, and `fix` counts what they have done to the files.
All three come to the same, because everything offered can be put in its place, and none of the
files that a run has written is one that it has still to read.
-/

namespace LogTemplate

namespace Console

open Workspace

/-- What there is to tell about a file: its text, what is offered in it, and the text with all of
that in its place. A file that is no text has nothing to offer and is one failure. -/
structure Account where
  file : Path
  old : Text := []
  new : Text := []
  proposals : List Proposal := []
  failed : Nat

namespace Account

def of (settings : Settings) (workspace : Workspace) (file : Path) : Account :=
  match workspace.readText file with
  | .error _ => { file, failed := 1 }
  | .ok text =>
      let report := Formatter.scan settings (Buffer.ofText text).contents
      { file
        old := text
        new := ((Pass.run settings file text).toOption.map Pass.text).getD text
        proposals := report.proposals
        failed := report.refusals.length }

def rewritten (account : Account) : Nat :=
  account.proposals.length

def found (colored : Bool) (account : Account) : String :=
  String.join (account.proposals.map (describe colored account.file (.ofText account.old)))

def told (colored dryRun diff : Bool) (account : Account) : String :=
  fixedLines colored dryRun diff account.file account.old account.new account.rewritten 0

/-- The sums that `fix` prints when none of its edits finds its work done. -/
def tally (colored : Bool) (verb : String) (accounts : List Account) : String :=
  summary colored [
    s!"{paint colored .green (toString (accounts.map rewritten).sum)} {verb}",
    s!"{paint colored .yellow (toString 0)} already applied",
    s!"{accounts.countP fun account => account.rewritten ≠ 0} files changed",
    s!"{paint colored .red (toString (accounts.map failed).sum)} failed"]

end Account

variable {settings : Settings} {before middle workspace : Workspace} {file : Path}
  {location : Location} {text : Text}

/-- What the three commands print about the same files. The numbers are those of the accounts, and
so are the texts that both kinds of `fix` compare. -/
structure Agree (colored diff : Bool) (accounts : List Account)
    (checked rehearsed fixed : Outcome) : Prop where
  checked_out : checked.out =
    String.join (accounts.map (Account.found colored)) ++ summary colored [
      s!"{accounts.length} files checked",
      s!"{paint colored .yellow (toString (accounts.map Account.rewritten).sum)} to rewrite",
      s!"{paint colored .red (toString (accounts.map Account.failed).sum)} failed"]
  rehearsed_out : rehearsed.out =
    paint colored .cyan "[DRY RUN - showing what would be rewritten]" ++ "\n" ++
      String.join (accounts.map (Account.told colored true diff)) ++
      Account.tally colored "would be rewritten" accounts
  fixed_out : fixed.out =
    String.join (accounts.map (Account.told colored false diff)) ++
      Account.tally colored "rewritten" accounts

end Console

end LogTemplate
