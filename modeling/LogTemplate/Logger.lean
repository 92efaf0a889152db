import LogTemplate.Text.Blank
import LogTemplate.Text.Letter

/-!
Which logging library a variable belongs to. The imports are read up to the first line with an
opening brace, and the last one of them counts; from that line on, the first line that declares the
variable decides.
-/

namespace LogTemplate

/-- The logging libraries that are told apart. -/
inductive Library where
  /-- The standard one, whose calls are turned into templates. -/
  | standard
  /-- Log4j, which takes parameters of its own accord. -/
  | log4j
  deriving DecidableEq, Repr

/-- What is known about the library of a variable. -/
inductive Resolution where
  /-- The declaration names the type in full. -/
  | declared (library : Library)
  /-- The declaration names the type shortly, and an import tells which one it is. -/
  | imported (library : Library)
  /-- There is no declaration, or no import for it. -/
  | unresolved
  deriving DecidableEq, Repr

def Resolution.library? : Resolution → Option Library
  | .declared library => some library
  | .imported library => some library
  | .unresolved => none

/-- The full names of the two logger types. -/
structure LoggerTypes where
  standard : Text
  log4j : Text
  deriving DecidableEq, Repr

namespace Logger

/-- The text with its first double blank made one. -/
def joinBlanks : Text → Text
  | ' ' :: ' ' :: cs => ' ' :: cs
  | c :: cs => c :: joinBlanks cs
  | [] => []

/-- A line without the blanks around it, and with its first double blank made one. -/
def normalize (line : Text) : Text :=
  joinBlanks line.trim

/-- The text holds `declaration` at a place where no character of a name follows. Places are tried
from the left, and those inside an earlier one are passed over: `skip` characters still are. -/
def declaresFrom (declaration : Text) : Nat → Text → Bool
  | _, [] => false
  | skip + 1, _ :: cs => declaresFrom declaration skip cs
  | 0, c :: cs =>
      if declaration.isPrefixOf (c :: cs) then
        if (((c :: cs).drop declaration.length).head?.map continuesName).getD false then
          declaresFrom declaration (declaration.length - 1) cs
        else true
      else declaresFrom declaration 0 cs

/-- The line declares a variable by `declaration`, a type and the name of the variable. -/
def declares (line declaration : Text) : Bool :=
  declaresFrom declaration 0 line

/-- The short name of a type: what follows its last dot. -/
def simpleName (type : Text) : Text :=
  type.afterLast '.'

/-- How a variable of a type is declared. -/
def declaration (type receiver : Text) : Text :=
  type ++ ' ' :: receiver

def importOf (type : Text) : Text :=
  "import ".toList ++ type ++ [';']

/-- The library that a line imports the logger of. -/
def importedBy (types : LoggerTypes) (line : Text) : Option Library :=
  let line := normalize line
  if line = importOf types.standard then some .standard
  else if line = importOf types.log4j then some .log4j
  else none

/-- The lines before the first one with an opening brace, and those from it on. -/
def splitHeader (lines : List Text) : List Text × List Text :=
  lines.span fun line => !line.contains '{'

/-- The last import among the lines of a header. -/
def lastImport (types : LoggerTypes) (header : List Text) : Option Library :=
  header.reverse.findSome? (importedBy types)

/-- What a line tells about a variable, given the last import. -/
def declaredBy (types : LoggerTypes) (receiver : Text) (imported : Option Library) (line : Text) :
    Option Resolution :=
  let line := normalize line
  if declares line (declaration types.standard receiver) then some (.declared .standard)
  else if declares line (declaration types.log4j receiver) then some (.declared .log4j)
  else if declares line (declaration (simpleName types.standard) receiver) ||
      declares line (declaration (simpleName types.log4j) receiver) then
    some ((imported.map Resolution.imported).getD .unresolved)
  else none

/-- What the lines of a source tell about a variable. -/
def resolve (types : LoggerTypes) (lines : List Text) (receiver : Text) : Resolution :=
  let (header, body) := splitHeader lines
  (body.findSome? (declaredBy types receiver (lastImport types header))).getD .unresolved

end Logger

end LogTemplate
