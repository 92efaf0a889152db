import LogTemplate.Text.Basic

/-!
Paths of files. A path is shown as it was written, and two paths are compared by their components,
so doubled slashes, a trailing slash and inner dots make no difference. A dot at the front of a
relative path is a component of its own.
-/

namespace LogTemplate

structure Path where
  text : Text
  deriving DecidableEq, Repr

inductive Component where
  | root
  /-- The dot at the front of a relative path. -/
  | here
  | up
  /-- The name of a file or folder. -/
  | name (text : Text)
  deriving DecidableEq, Repr

namespace Component

/-- The component that a piece between two slashes stands for. Empty pieces and dots stand for
none. -/
def ofPiece? (piece : Text) : Option Component :=
  if piece = [] ∨ piece = ['.'] then none
  else if piece = ['.', '.'] then some .up
  else some (.name piece)

/-- A key that orders components: the root, the dot, the parent, then names by their characters. -/
def key : Component → List Nat
  | .root => [0]
  | .here => [1]
  | .up => [2]
  | .name text => 3 :: text.map Char.toNat

/-- The order of components, by their keys. -/
def lt (a b : Component) : Bool :=
  List.lex a.key b.key Nat.blt

end Component

namespace Path

def display (path : Path) : String :=
  String.ofList path.text

def isAbsolute (path : Path) : Bool :=
  path.text.head? = some '/'

/-- The pieces of the path between its slashes. -/
def pieces (path : Path) : List Text :=
  path.text.splitOnP (· = '/')

def components (path : Path) : List Component :=
  let front : List Component :=
    match path.pieces with
    | [] :: _ :: _ => [.root]
    | ['.'] :: _ => [.here]
    | _ => []
  front ++ path.pieces.filterMap Component.ofPiece?

/-- The two paths have the same components. -/
def same (p q : Path) : Bool :=
  p.components == q.components

/-- The order of paths: component by component. -/
def le (p q : Path) : Bool :=
  !List.lex q.components p.components Component.lt

/-- The list without the paths that equal the one before them. -/
def dropRepeats : List Path → List Path
  | [] => []
  | p :: paths =>
      match dropRepeats paths with
      | [] => [p]
      | q :: rest => if p.same q then p :: rest else p :: q :: rest

/-- The paths in order, each once. Of paths that are the same, the first one of the list stays. -/
def sorted (paths : List Path) : List Path :=
  dropRepeats (paths.mergeSort le)

/-- The path of something in the folder that this path names. -/
def join (folder : Path) (name : Text) : Path where
  text :=
    if folder.text.isEmpty then name
    else if folder.text.getLast? = some '/' then folder.text ++ name
    else folder.text ++ '/' :: name

/-- The pieces of a reversed path without empty ones and dots at its end; a dot that is all of the
path stays. -/
def dropTail : List Text → List Text
  | [] => []
  | [piece] => [piece]
  | piece :: rest => if Component.ofPiece? piece = none then dropTail rest else piece :: rest

/-- The folder that the last component of the path lies in. -/
def parent? (path : Path) : Option Path :=
  match dropTail path.pieces.reverse with
  | [] => none
  | [[]] => none
  | [_] => some ⟨[]⟩
  | _ :: rest =>
      match dropTail rest with
      | [[]] => some ⟨['/']⟩
      | folder => some ⟨['/'].intercalate folder.reverse⟩

/-- At most `fuel` folders above a path, the nearest first. -/
def parents : Nat → Path → List Path
  | 0, _ => []
  | fuel + 1, path =>
      match path.parent? with
      | none => []
      | some folder => folder :: parents fuel folder

/-- The path and the folders above it, the nearest first. -/
def ancestors (path : Path) : List Path :=
  path :: parents (path.pieces.length + 1) path

/-- What follows the last dot of the last piece, unless that dot starts it. -/
def extension? (path : Path) : Option Text :=
  let name := path.text.afterLast '/'
  let extension := name.afterLast '.'
  if extension.length + 1 < name.length then some extension else none

end Path

end LogTemplate
