import DwarfLines.Assembly.Lists
import DwarfLines.Header.Reader

/-!
# Writing a line table

A unit is written from the fields of its header, the bytes of its lists and the bytes of its
program. Some bytes may stand between the lists and the program, since the header says where the
program begins. The lengths are computed, and must fit the format.
-/

namespace DwarfLines

/-- What a line table is written from. -/
structure UnitLayout where
  order : ByteOrder
  format : DwarfFormat
  version : UInt16
  /-- The size of an address, which only version 5 writes. -/
  addressSize : UInt8
  segmentSelectorSize : UInt8
  minimumInstructionLength : UInt8
  /-- The number of operations of an instruction, which versions 2 and 3 do not write. -/
  maximumOperations : UInt8
  /-- Zero unless rows begin statements by default. -/
  defaultIsStmt : UInt8
  lineBase : Int8
  lineRange : UInt8
  opcodeBase : UInt8
  /-- The number of operands of each opcode from the first on. -/
  operandCounts : List UInt8
  tables : List UInt8
  gap : List UInt8
  program : List UInt8
  deriving DecidableEq, Repr

namespace UnitLayout

variable (layout : UnitLayout)

/-- The fields between the header's length and the lists. -/
def scalarBytes : List UInt8 :=
  layout.minimumInstructionLength ::
    (if layout.version < 4 then [] else [layout.maximumOperations]) ++
    [layout.defaultIsStmt, layout.lineBase.toUInt8, layout.lineRange, layout.opcodeBase] ++
    layout.operandCounts

/-- What the header's length covers. -/
def countedBytes : List UInt8 := layout.scalarBytes ++ layout.tables ++ layout.gap

def sizeBytes : List UInt8 :=
  if layout.version = 5 then [layout.addressSize, layout.segmentSelectorSize] else []

def body : List UInt8 :=
  layout.order.bytes 2 layout.version.toNat ++ layout.sizeBytes ++
    layout.order.bytes layout.format.wordSize layout.countedBytes.length ++
    layout.countedBytes ++ layout.program

def bytes : List UInt8 := layout.format.lengthBytes layout.order layout.body.length ++ layout.body

def fits : Bool := layout.body.length ≤ layout.format.maxLength

def isWellFormed : Bool :=
  2 ≤ layout.version && layout.version ≤ 5 && layout.maximumOperations != 0 &&
    layout.lineRange != 0 && layout.opcodeBase != 0 &&
    layout.operandCounts.length + 1 == layout.opcodeBase.toNat &&
    StandardOpcode.all.all fun opcode =>
      layout.opcodeBase ≤ opcode.code ||
        layout.operandCounts[opcode.code.toNat - 1]? == some opcode.operandCount

/-- What the machine needs to know to run the program, in a unit with the given address size. -/
def parameters (contextSize : UInt8) : Parameters where
  order := layout.order
  version := layout.version
  addressSize := if layout.version = 5 then layout.addressSize else contextSize
  minimumInstructionLength := layout.minimumInstructionLength
  maximumOperations := if layout.version < 4 then 1 else layout.maximumOperations
  defaultIsStmt := layout.defaultIsStmt != 0
  lineBase := layout.lineBase
  lineRange := layout.lineRange
  opcodeBase := layout.opcodeBase

end UnitLayout
end DwarfLines
