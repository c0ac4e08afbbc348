import DwarfLines.Error

/-!
# Paths of directories and files

Paths are resolved once, when an entry is made. A directory always ends with a separator; a
relative path is appended to the directory it is relative to, and an absolute one is kept.
Separators and roots of both families of systems are known, since a table may come from either.
-/

namespace DwarfLines
namespace Path

def isSeparator (c : Char) : Bool := c == '/' || c == '\\'

/-- Whether a path names its root: a separator, or a drive and a separator. -/
def isAbsolute (path : String) : Bool :=
  match path.toList with
  | c :: rest =>
    isSeparator c || (c.isAlpha && match rest with
      | ':' :: d :: _ => isSeparator d
      | _ => false)
  | [] => false

def endsWithSeparator (path : String) : Bool := path.toList.getLast?.any isSeparator

def normalizeDirectory (path : String) : Except LineError String :=
  if path.isEmpty then .error (.format .emptyDirectory)
  else if endsWithSeparator path then .ok path
  else .ok (path ++ "/")

/-- A directory, relative to the compile directory unless it is absolute. -/
def resolveDirectory (compDir raw : String) : Except LineError String := do
  let path ← normalizeDirectory raw
  return if isAbsolute path then path else compDir ++ path

/-- A file, relative to a directory unless it is absolute. -/
def resolveFile (directory raw : String) : Except LineError String :=
  if raw.isEmpty then .error (.format .emptyFile)
  else .ok (if isAbsolute raw then raw else directory ++ raw)

end Path
end DwarfLines
