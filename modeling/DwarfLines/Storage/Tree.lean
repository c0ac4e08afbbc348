import DwarfLines.Storage.FilePath

/-!
# Files in a working directory

A program reads one file and may make another, so of the storage around it only the files and
directories below the working directory are known. Anything outside is taken for a directory in
which no name is found and nothing that is made is kept.
-/

namespace DwarfLines

/-- Why a file cannot be read or made. -/
inductive StorageError where
  | notFound
  | fileExists
  | notDirectory
  | isDirectory
  | other (reason : String)
  deriving DecidableEq, Repr

/-- The words for a failure, with the number that the system gives it. -/
def StorageError.message : StorageError → String
  | notFound => "No such file or directory (os error 2)"
  | fileExists => "File exists (os error 17)"
  | notDirectory => "Not a directory (os error 20)"
  | isDirectory => "Is a directory (os error 21)"
  | other reason => reason

/-- A place below the working directory, or outside of it. -/
inductive Place where
  | inside (names : List String)
  | outside
  deriving DecidableEq, Repr

/-- The files and directories below the working directory. A directory that holds a file need not
be listed. -/
structure Storage where
  files : List (List String × List UInt8)
  directories : List (List String) := []
  deriving DecidableEq, Repr

namespace Storage

variable (storage : Storage)

def isFile (names : List String) : Bool := storage.files.any (·.1 == names)

def isDirectory : Place → Bool
  | .outside => true
  | .inside names =>
    names.isEmpty || storage.directories.any (names.isPrefixOf ·) ||
      storage.files.any fun file => names.isPrefixOf file.1 && file.1 != names

def enter : Place → PathPart → Except StorageError Place
  | _, .root => .ok .outside
  | place, .here => .ok place
  | .inside (first :: rest), .up => .ok (.inside (first :: rest).dropLast)
  | _, .up => .ok .outside
  | .outside, .name _ => .error .notFound
  | .inside names, .name text =>
    let target := names ++ [text]
    if storage.isFile target || storage.isDirectory (.inside target) then
      .ok (.inside target)
    else
      .error .notFound

def follow (place : Place) : List PathPart → Except StorageError Place
  | [] => .ok place
  | part :: rest =>
    if storage.isDirectory place then
      match storage.enter place part with
      | .ok next => follow next rest
      | .error e => .error e
    else
      .error .notDirectory

def read (path : String) : Except StorageError (List UInt8) :=
  if path.isEmpty then
    .error .notFound
  else
    match storage.follow (.inside []) (PathPart.list path) with
    | .error e => .error e
    | .ok .outside => .error .isDirectory
    | .ok (.inside names) =>
      match storage.files.lookup names with
      | some bytes => .ok bytes
      | none => .error .isDirectory

def holdsFile (path : String) : Bool := (storage.read path).isOk

end Storage

/-- Makes the directories that the parts of a path name, unless they are there. -/
def Storage.makeDirectories (storage : Storage) (place : Place) :
    List PathPart → Except StorageError (Storage × Place)
  | [] => .ok (storage, place)
  | .root :: rest => storage.makeDirectories .outside rest
  | .here :: rest => storage.makeDirectories place rest
  | .up :: rest =>
    match place with
    | .inside (first :: more) => storage.makeDirectories (.inside (first :: more).dropLast) rest
    | _ => storage.makeDirectories .outside rest
  | .name text :: rest =>
    match place with
    | .outside => storage.makeDirectories .outside rest
    | .inside names =>
      let target := names ++ [text]
      if storage.isFile target then
        .error (if rest.isEmpty then .fileExists else .notDirectory)
      else if storage.isDirectory (.inside target) then
        storage.makeDirectories (.inside target) rest
      else
        { storage with directories := storage.directories ++ [target] }.makeDirectories
          (.inside target) rest

def Storage.makeFile (storage : Storage) (place : Place) (name : String) : Storage :=
  match place with
  | .outside => storage
  | .inside names =>
    let target := names ++ [name]
    if storage.isFile target || storage.isDirectory (.inside target) then
      storage
    else
      { storage with files := storage.files ++ [(target, [])] }

end DwarfLines
