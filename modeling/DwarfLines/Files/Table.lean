import DwarfLines.Path

/-!
# Directories and files of a line table

The file list begins with what the header declares and can grow while the program runs, because
versions before 5 may declare a file in the middle of the program. Every pass over the program
meets the same declarations, so the table remembers how far into the program declarations were
taken: one that begins before that offset was already appended.
-/

namespace DwarfLines

/-- A file with its path resolved. -/
structure FileEntry where
  path : String
  directoryIndex : UInt64
  timestamp : Option UInt64 := none
  size : Option UInt64 := none
  /-- Where in the unit the digest of the file's contents stands. -/
  md5Offset : Option Nat := none
  deriving DecidableEq, Repr

/-- A file as a version before 5 declares it; a timestamp or size of zero means unknown. -/
structure FileRecord where
  name : String
  directoryIndex : UInt64
  timestamp : UInt64
  size : UInt64
  deriving DecidableEq, Repr

/-- The directories and files known so far. -/
structure FileTable where
  compDir : String
  directories : List String := []
  files : List FileEntry := []
  /-- Whether some pass has run the whole program. -/
  complete : Bool := false
  /-- The offset up to which declarations in the program were taken. -/
  definedThrough : Nat := 0
  /-- How many passes were run only to find late declarations. -/
  fullScans : Nat := 0
  deriving DecidableEq, Repr

namespace FileTable

variable (table : FileTable)

def directoryAt (index : UInt64) : String :=
  table.directories[index.toNat]?.getD table.compDir

def file? (index : UInt64) : Option FileEntry := table.files[index.toNat]?

def entryOf (record : FileRecord) : Except LineError FileEntry := do
  let path ← Path.resolveFile (table.directoryAt record.directoryIndex) record.name
  return {
    path
    directoryIndex := record.directoryIndex
    timestamp := if record.timestamp = 0 then none else some record.timestamp
    size := if record.size = 0 then none else some record.size }

def append (entry : FileEntry) : FileTable := { table with files := table.files ++ [entry] }

/-- Takes a declaration that begins at one offset of the program and ends at another, unless a
pass has taken it before. -/
def define (start finish : Nat) (record : FileRecord) : Except LineError FileTable :=
  if start < table.definedThrough then
    .ok table
  else do
    let entry ← table.entryOf record
    return { table.append entry with definedThrough := finish }

def markComplete : FileTable := { table with complete := true }

/-- Counts a pass that is run only to find late declarations. -/
def recordFullScan : FileTable := { table with fullScans := table.fullScans + 1 }

end FileTable
end DwarfLines
