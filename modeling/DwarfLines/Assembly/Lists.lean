import DwarfLines.Assembly.Instruction
import DwarfLines.Files.DescribedLists

/-!
# Writing directory and file lists

Before version 5 both lists are written as their records and an empty one. From version 5 on each
list is preceded by its columns and counted, and what a column holds is bytes that its form takes.
-/

namespace DwarfLines

/-- The directory and file lists of a version before 5. -/
structure LegacyDeclarations where
  directories : List String
  records : List FileRecord
  deriving DecidableEq, Repr

namespace LegacyDeclarations

def bytes (declared : LegacyDeclarations) : List UInt8 :=
  declared.directories.flatMap terminatedBytes ++ 0 ::
    declared.records.flatMap FileRecord.bytes ++ [0]

def isWritable (declared : LegacyDeclarations) : Bool :=
  (declared.directories.all fun name => !name.isEmpty && hasNoZero name) &&
    declared.records.all FileRecord.isWritable

end LegacyDeclarations

def EntryColumn.bytes (column : EntryColumn) : List UInt8 :=
  Leb128.unsignedBytes column.contentType.toNat ++ Leb128.unsignedBytes column.form.toNat

/-- The columns and records of one list. Every record has a value for every column. -/
structure DescribedRecords where
  columns : List EntryColumn
  records : List (List (List UInt8))
  deriving DecidableEq, Repr

def DescribedRecords.bytes (described : DescribedRecords) : List UInt8 :=
  UInt8.ofNat described.columns.length :: described.columns.flatMap EntryColumn.bytes ++
    Leb128.unsignedBytes described.records.length ++
    described.records.flatMap fun values => values.flatten

/-- The directory and file lists of version 5. -/
structure DescribedDeclarations where
  directories : DescribedRecords
  files : DescribedRecords
  deriving DecidableEq, Repr

def DescribedDeclarations.bytes (declared : DescribedDeclarations) : List UInt8 :=
  declared.directories.bytes ++ declared.files.bytes

end DwarfLines
