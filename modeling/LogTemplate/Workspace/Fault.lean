import LogTemplate.Text.Utf8

namespace LogTemplate

/-- Why a path leads to no file. -/
inductive FileFault where
  | notFound
  /-- A file stands where a folder is needed. -/
  | notFolder
  /-- A folder stands where a file is needed. -/
  | isFolder
  deriving DecidableEq, Repr

def FileFault.message : FileFault → String
  | .notFound => "No such file or directory (os error 2)"
  | .notFolder => "Not a directory (os error 20)"
  | .isFolder => "Is a directory (os error 21)"

/-- Why a file cannot be read as text. -/
inductive ReadFault where
  | file (fault : FileFault)
  | notText
  deriving DecidableEq, Repr

def ReadFault.message : ReadFault → String
  | .file fault => fault.message
  | .notText => "stream did not contain valid UTF-8"

end LogTemplate
