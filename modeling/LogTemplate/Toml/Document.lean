import LogTemplate.Toml.Scalar

namespace LogTemplate.Toml

/-- Arrays and tables in braces lie in each other at most this deep, and a key has at most this many
parts. -/
def nestingLimit : Nat := 80

/-- What follows blanks, newlines and comments; the first argument tells whether the text starts
inside a comment. -/
def skipTrivia : Bool → Text → Option Text
  | _, [] => some []
  | _, '\n' :: cs => skipTrivia false cs
  | _, '\r' :: '\n' :: cs => skipTrivia false cs
  | true, c :: cs => if isPlain c then skipTrivia true cs else none
  | false, ' ' :: cs => skipTrivia false cs
  | false, '\t' :: cs => skipTrivia false cs
  | false, '#' :: cs => skipTrivia true cs
  | false, cs => some cs

/-- What follows the blanks of a line. -/
def skipSpaces (text : Text) : Text :=
  text.dropWhile fun c => c = ' ' || c = '\t'

/-- What follows the end of a line, before which only blanks and a comment may stand. -/
def skipLineEnd (text : Text) : Option Text :=
  let isLineEnd (cs : Text) : Bool :=
    match cs with
    | [] | '\n' :: _ | '\r' :: '\n' :: _ => true
    | _ => false
  match skipSpaces text with
  | '#' :: cs =>
      let rest := cs.dropWhile isPlain
      if isLineEnd rest then some (skipNewline rest) else none
  | cs => if isLineEnd cs then some (skipNewline cs) else none

/-- A character of a key without quotes. -/
def continuesKey (c : Char) : Bool :=
  c.isAlphanum || c = '_' || c = '-'

def keyPart? : Text → Option (Text × Text)
  | '"' :: cs => basicString cs
  | '\'' :: cs => literalString cs
  | cs =>
      match cs.span continuesKey with
      | ([], _) => none
      | part => some part

/-- A key of at most `fuel` parts: the parts on the way, the last one, and what follows. -/
def key? : Nat → Text → Option (List Text × Text × Text)
  | 0, _ => none
  | fuel + 1, text => do
      let (part, rest) ← keyPart? (skipSpaces text)
      match skipSpaces rest with
      | '.' :: rest =>
          let (way, last, rest) ← key? fuel rest
          return (part :: way, last, rest)
      | rest => return ([], part, rest)

/-- A key, an equals sign and a value of a table in braces, put into the table. Newlines and
comments may stand around the sign. -/
def entry? (value : Text → Option (Value × Text)) (text : Text) (table : Table) :
    Option (Table × Text) := do
  let (way, last, rest) ← key? nestingLimit text
  let '=' :: rest ← skipTrivia false rest | none
  let (value, rest) ← value (← skipTrivia false rest)
  return (← table.insert value last way, rest)

/-- The rest of an array of at most `fuel` values. -/
def array? (value : Text → Option (Value × Text)) : Nat → Text → Option (List Value × Text)
  | 0, _ => none
  | fuel + 1, text => do
      match ← skipTrivia false text with
      | ']' :: rest => return ([], rest)
      | start =>
          let (item, rest) ← value start
          match ← skipTrivia false rest with
          | ',' :: rest =>
              let (items, rest) ← array? value fuel rest
              return (item :: items, rest)
          | ']' :: rest => return ([item], rest)
          | _ => none

/-- The rest of a table in braces of at most `fuel` entries, added to those read so far. -/
def inlineTable? (value : Text → Option (Value × Text)) :
    Nat → Table → Text → Option (Table × Text)
  | 0, _, _ => none
  | fuel + 1, table, text => do
      match ← skipTrivia false text with
      | '}' :: rest => return (table, rest)
      | start =>
          let (table, rest) ← entry? value start table
          match ← skipTrivia false rest with
          | ',' :: rest => inlineTable? value fuel table rest
          | '}' :: rest => return (table, rest)
          | _ => none

/-- A value in which others lie at most `depth` deep. -/
def value? : Nat → Text → Option (Value × Text)
  | depth + 1, '[' :: cs => do
      let (items, rest) ← array? (value? depth) (cs.length + 1) cs
      return (.array items, rest)
  | depth + 1, '{' :: cs => do
      let (table, rest) ← inlineTable? (value? depth) (cs.length + 1) [] cs
      return (.table .inline table, rest)
  | _, cs => scalar? cs

/-- The key of a header up to its closing bracket, and what follows the bracket. -/
def header? (text : Text) : Option (List Text × Text × Text) := do
  let (way, last, rest) ← key? nestingLimit text
  let ']' :: rest := rest | none
  return (way, last, rest)

/-- The table of a document of at most `fuel` lines, given the table read so far and the header that
its entries go to. -/
def lines? : Nat → List Text → Table → Text → Option Table
  | 0, _, _, _ => none
  | fuel + 1, header, table, text => do
      match ← skipTrivia false text with
      | [] => return table
      | '[' :: '[' :: cs =>
          let (way, last, rest) ← header? cs
          let ']' :: rest := rest | none
          let table ← table.openHeader Table.placeItem last way
          lines? fuel (way ++ [last]) table (← skipLineEnd rest)
      | '[' :: cs =>
          let (way, last, rest) ← header? cs
          let table ← table.openHeader Table.placeTable last way
          lines? fuel (way ++ [last]) table (← skipLineEnd rest)
      | start =>
          let (way, last, rest) ← key? nestingLimit start
          let '=' :: rest := rest | none
          let (value, rest) ← value? nestingLimit (skipSpaces rest)
          let table ← table.modify (·.insert value last way) header
          lines? fuel header table (← skipLineEnd rest)

/-- The table of a document. A byte order mark at its front is passed over. -/
def document? (text : Text) : Option Table :=
  let text := if text.head? = some (Char.ofNat 0xFEFF) then text.tail else text
  lines? (text.length + 1) [] [] text

end LogTemplate.Toml
