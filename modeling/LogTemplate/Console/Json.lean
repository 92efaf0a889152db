import LogTemplate.Proposal.Basic

namespace LogTemplate.Console.Json

def hexDigit (n : Nat) : Char :=
  Nat.digitChar (n % 16)

/-- A character as it is written in a string. -/
def escape (c : Char) : Text :=
  if c = '"' then ['\\', '"']
  else if c = '\\' then ['\\', '\\']
  else if c = '\n' then ['\\', 'n']
  else if c = '\r' then ['\\', 'r']
  else if c = '\t' then ['\\', 't']
  else if c = Char.ofNat 0x08 then ['\\', 'b']
  else if c = Char.ofNat 0x0C then ['\\', 'f']
  else if c.toNat < 0x20 then ['\\', 'u', '0', '0', hexDigit (c.toNat / 16), hexDigit c.toNat]
  else [c]

def text (content : Text) : List String :=
  [String.ofList ('"' :: (content.flatMap escape ++ ['"']))]

def number (n : Nat) : List String :=
  [toString n]

/-- The lines of an entry of an object. -/
def entry (key : String) : List String → List String
  | [] => []
  | line :: lines => s!"\"{key}\": {line}" :: lines

/-- The lines of values, each but the last followed by a comma. -/
def separated : List (List String) → List String
  | [] => []
  | [item] => item
  | item :: items =>
      item.dropLast ++ (item.getLast?.map (· ++ ",")).toList ++ separated items

/-- The lines of values between two brackets. -/
def block (opening closing : String) (items : List (List String)) : List String :=
  if items.isEmpty then [opening ++ closing]
  else opening :: ((separated items).map ("  " ++ ·) ++ [closing])

def object (entries : List (String × List String)) : List String :=
  block "\x7b" "\x7d" (entries.map fun (key, lines) => entry key lines)

def array (items : List (List String)) : List String :=
  block "[" "]" items

def position (p : Position) : List String :=
  object [("line", number p.line), ("column", number p.column)]

def proposal (p : Proposal) : List String :=
  object [
    ("range", object [("start", position p.span.start), ("end", position p.span.stop)]),
    ("replacement", text p.replacement),
    ("statement", object [("code", text p.statement.code), ("start", number p.statement.first),
      ("end", number p.statement.last)]),
    ("template", object [("template", text p.template.text),
      ("params", array (p.template.params.map text))])]

/-- The lines of a reason why nothing is offered. -/
def skip (reason : Skip) : List String :=
  object [("skipped", text reason.message.toList)]

end LogTemplate.Console.Json
