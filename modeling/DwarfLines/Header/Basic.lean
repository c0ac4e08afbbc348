import DwarfLines.Dwarf.Format
import DwarfLines.Files.DescribedLists

/-!
# The header of a line table

The header says how the line number program is to be run, how long the table is, and which
directories and files it begins with. What the machine itself needs is kept apart, so that two
tables which differ only in their layout run their programs alike.
-/

namespace DwarfLines

/-- What the machine needs to know to run a program. -/
structure Parameters where
  order : ByteOrder
  version : UInt16
  addressSize : UInt8
  minimumInstructionLength : UInt8
  maximumOperations : UInt8
  defaultIsStmt : Bool
  lineBase : Int8
  lineRange : UInt8
  opcodeBase : UInt8
  deriving DecidableEq, Repr

/-- The header of a line table. Offsets count from the first byte of its unit. -/
structure Header extends Parameters where
  format : DwarfFormat
  unitLength : Nat
  segmentSelectorSize : UInt8
  headerLength : Nat
  programOffset : Nat
  /-- The number of operands of each opcode below the opcode base; the first one is unused. -/
  operandCounts : List UInt8
  directoryFormat : List EntryColumn
  fileFormat : List EntryColumn
  deriving DecidableEq, Repr

/-- The part of a line table that never changes: its header and the bytes of its unit. -/
structure LineProgram where
  header : Header
  bytes : List UInt8
  /-- Where the directory and file lists end, which may be before or after the program begins. -/
  tablesEnd : Nat
  deriving DecidableEq, Repr

/-- The size of the unit, the field that holds its length included. -/
def LineProgram.size (program : LineProgram) : Nat := program.bytes.length

end DwarfLines
