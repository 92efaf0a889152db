import LogTemplate.Settings.Basic
import LogTemplate.Toml.Document

/-!
Settings from a TOML document. The document has a table for each section; a section may also be
written as the array of its values. What is not mentioned has its default, and a key that is not
known is an error.
-/

namespace LogTemplate.Settings

open Toml

def text? : Value → Option Text
  | .string text => some text
  | _ => none

def natural? : Value → Option Nat
  | .integer (.ofNat n) => some n
  | _ => none

def texts? : Value → Option (List Text)
  | .array items => items.mapM text?
  | _ => none

/-- The values of the keys of a section, each if it is there. -/
def fieldsOf? (keys : List String) : Option Value → Option (List (Option Value))
  | none => some (keys.map fun _ => none)
  | some (.array items) => some ((List.range keys.length).map fun i => items[i]?)
  | some (.table _ entries) => do
      guard (entries.all fun (key, _) => keys.contains (String.ofList key))
      return keys.map fun key => Table.get? key.toList entries
  | some _ => none

/-- The setting that a value gives, or the default one when there is no value. -/
def orDefault {α : Type} (read : Value → Option α) (otherwise : α) : Option Value → Option α
  | none => some otherwise
  | some value => read value

def ofTable? (table : Table) : Option Settings := do
  guard (table.all fun (key, _) =>
    ["parser", "resolver", "rewrite"].contains (String.ofList key))
  let [budget] ← fieldsOf? ["iteration_budget"] (table.get? "parser".toList) | none
  let [standard, log4j] ←
    fieldsOf? ["standard_logger", "log4j_logger"] (table.get? "resolver".toList) | none
  let [levelType, extensions] ←
    fieldsOf? ["level_type", "extensions"] (table.get? "rewrite".toList) | none
  return {
    operandBudget := ← orDefault natural? default.operandBudget budget
    loggers := {
      standard := ← orDefault text? default.loggers.standard standard
      log4j := ← orDefault text? default.loggers.log4j log4j }
    levelType := ← orDefault text? default.levelType levelType
    extensions := ← orDefault texts? default.extensions extensions }

/-- The settings that a text in TOML gives. -/
def decode? (text : Text) : Option Settings :=
  (document? text).bind ofTable?

end LogTemplate.Settings
