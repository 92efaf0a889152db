import LogTemplate.Text.Basic

namespace LogTemplate.Toml

inductive TableKind where
  /-- Written in braces; nothing can be added to it. -/
  | inline
  /-- Opened by a header of its own. -/
  | opened
  /-- On the way to a table that was opened. -/
  | implied
  /-- On the way to a dotted key. -/
  | dotted
  deriving DecidableEq, Repr

/-- A value. Numbers with a fraction, dates and times are kept as they are written. -/
inductive Value where
  | string (text : Text)
  | integer (value : Int)
  | float (literal : Text)
  | boolean (value : Bool)
  | datetime (literal : Text)
  | array (items : List Value)
  | table (kind : TableKind) (entries : List (Text × Value))
  /-- The tables of headers in doubled brackets, the last one first. -/
  | tables (items : List (List (Text × Value)))
  deriving Repr

/-- The entries of a table, in the order of their keys' first mention. -/
abbrev Table := List (Text × Value)

namespace Table

def get? (key : Text) (table : Table) : Option Value :=
  List.lookup key table

/-- The table with a key's value put in its place, or at the end when the key is new. -/
def set (key : Text) (value : Value) : Table → Table
  | [] => [(key, value)]
  | (k, v) :: table => if k = key then (key, value) :: table else (k, v) :: set key value table

/-- The table with a value under a dotted key, given as the keys on the way and the last one. -/
def insert (value : Value) (last : Text) : List Text → Table → Option Table
  | [], table => if (table.get? last).isSome then none else some (table.set last value)
  | key :: keys, table =>
      match table.get? key with
      | none => (insert value last keys []).map fun sub => table.set key (.table .dotted sub)
      | some (.table .dotted entries) =>
          (insert value last keys entries).map fun sub => table.set key (.table .dotted sub)
      | some (.table .implied entries) =>
          if keys.isEmpty then none
          else (insert value last keys entries).map fun sub => table.set key (.table .implied sub)
      | some _ => none

/-- The table after a change of the one that a header named; of tables in doubled brackets, the
last one is meant. -/
def modify (change : Table → Option Table) : List Text → Table → Option Table
  | [], table => change table
  | key :: keys, table =>
      match table.get? key with
      | some (.table kind entries) =>
          (modify change keys entries).map fun sub => table.set key (.table kind sub)
      | some (.tables (entries :: earlier)) =>
          (modify change keys entries).map fun sub => table.set key (.tables (sub :: earlier))
      | _ => none

/-- The table after a header, given as the keys on the way. `place` says what becomes of the last
key, given its value so far. -/
def openHeader (place : Option Value → Option Value) (last : Text) :
    List Text → Table → Option Table
  | [], table => (place (table.get? last)).map fun value => table.set last value
  | key :: keys, table =>
      match table.get? key with
      | none => (openHeader place last keys []).map fun sub => table.set key (.table .implied sub)
      | some (.table .inline _) => none
      | some (.table kind entries) =>
          (openHeader place last keys entries).map fun sub => table.set key (.table kind sub)
      | some (.tables (entries :: earlier)) =>
          (openHeader place last keys entries).map fun sub =>
            table.set key (.tables (sub :: earlier))
      | some _ => none

/-- A header opens a table that is new or was only implied. -/
def placeTable : Option Value → Option Value
  | none => some (.table .opened [])
  | some (.table .implied entries) => some (.table .opened entries)
  | some _ => none

/-- A header in doubled brackets opens one more table. -/
def placeItem : Option Value → Option Value
  | none => some (.tables [[]])
  | some (.tables items) => some (.tables ([] :: items))
  | some _ => none

end Table

end LogTemplate.Toml
