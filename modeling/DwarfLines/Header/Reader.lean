import DwarfLines.Files.LegacyLists
import DwarfLines.Header.Basic

/-!
# Reading the header

Versions 2 and 3 leave out the number of operations of an instruction; version 5 adds the sizes
of an address and a segment selector and describes its lists by columns. The header is judged
strictly: a divisor of zero, or an operand count that disagrees with the standard, is refused
before any opcode runs.
-/

namespace DwarfLines

structure HeaderPrologue where
  format : DwarfFormat
  unitLength : Nat
  version : UInt16
  addressSize : UInt8
  segmentSelectorSize : UInt8
  headerLength : Nat
  programOffset : Nat
  deriving DecidableEq, Repr

namespace HeaderPrologue

def readSizes (version : UInt16) (context : UnitContext) : Reader LineError (UInt8 × UInt8) := do
  if version = 5 then
    let addressSize ← Reader.byte
    return (addressSize, ← Reader.byte)
  else
    return (context.addressSize, 0)

def read (order : ByteOrder) (size : Nat) (context : UnitContext) :
    Reader LineError HeaderPrologue := do
  let (unitLength, format) ← Reader.initialLength order
  let version ← Reader.uint16 order
  if version < 2 ∨ 5 < version then
    Reader.reject (.unknownVersion version)
  else
    let (addressSize, segmentSelectorSize) ← readSizes version context
    let headerLength ← Reader.word order format
    let programOffset := (← Reader.offset) + headerLength
    if programOffset ≤ size then
      return { format, unitLength, version, addressSize, segmentSelectorSize, headerLength,
               programOffset }
    else
      Reader.reject (.headerLengthOverrun headerLength size)

end HeaderPrologue

namespace Parameters

def readMaximumOperations (version : UInt16) : Reader LineError UInt8 := do
  if version < 4 then return 1 else Reader.byte

def read (order : ByteOrder) (version : UInt16) (addressSize : UInt8) :
    Reader LineError Parameters := do
  let minimumInstructionLength ← Reader.byte
  let maximumOperations ← readMaximumOperations version
  if maximumOperations = 0 then
    Reader.reject .zeroMaximumOperations
  else
    let defaultIsStmt := (← Reader.byte) ≠ 0
    let lineBase := (← Reader.byte).toInt8
    let lineRange ← Reader.byte
    if lineRange = 0 then
      Reader.reject .zeroLineRange
    else
      let opcodeBase ← Reader.byte
      if opcodeBase = 0 then
        Reader.reject .zeroOpcodeBase
      else
        return { order, version, addressSize, minimumInstructionLength, maximumOperations,
                 defaultIsStmt, lineBase, lineRange, opcodeBase }

end Parameters

namespace Header

/-- Reads the operand count of one opcode, which must be the standard one if there is one. -/
def readOperandCount (opcode : Nat) : Reader LineError UInt8 := do
  let found ← Reader.byte
  match StandardOpcode.ofCode? (UInt8.ofNat opcode) with
  | some known =>
    if found = known.operandCount then
      return found
    else
      Reader.reject (.operandCount known.operandCount opcode found)
  | none => return found

def readOperandCounts (opcode : Nat) : Nat → Reader LineError (List UInt8)
  | 0 => pure []
  | count + 1 => do
    let first ← readOperandCount opcode
    let more ← readOperandCounts (opcode + 1) count
    return first :: more

def readDescribed (layout : FormLayout) (context : UnitContext) :
    Reader LineError (List EntryColumn × List EntryColumn × FileTable) := do
  let directoryFormat ← EntryColumn.readDirectoryFormat
  let table ← FileTable.readDirectories layout directoryFormat context
  let fileFormat ← EntryColumn.readFileFormat
  let table ← FileTable.readFiles layout table fileFormat
  return (directoryFormat, fileFormat, table)

def readLists (prologue : HeaderPrologue) (order : ByteOrder) (context : UnitContext) :
    Reader LineError (List EntryColumn × List EntryColumn × FileTable) := do
  if prologue.version = 5 then
    readDescribed
      { order, format := prologue.format, addressSize := prologue.addressSize,
        strings := context.strings } context
  else
    return ([], [], ← FileTable.readLegacy context)

def read (order : ByteOrder) (size : Nat) (context : UnitContext) :
    Reader LineError (Header × FileTable) := do
  let prologue ← HeaderPrologue.read order size context
  let parameters ← Parameters.read order prologue.version prologue.addressSize
  let counts ← readOperandCounts 1 (parameters.opcodeBase.toNat - 1)
  let (directoryFormat, fileFormat, table) ← readLists prologue order context
  let header : Header :=
    { parameters with
      format := prologue.format
      unitLength := prologue.unitLength
      segmentSelectorSize := prologue.segmentSelectorSize
      headerLength := prologue.headerLength
      programOffset := prologue.programOffset
      operandCounts := 0 :: counts
      directoryFormat
      fileFormat }
  return (header, table)

end Header

/-- The bytes of the unit that starts at an offset of the line section. -/
def unitBytes (order : ByteOrder) (lines : List UInt8) (offset : Nat) :
    Except LineError (List UInt8) := do
  let start ← LineError.ofRead (Cursor.at? lines offset)
  let ((length, format), _) ← LineError.ofRead (Reader.initialLength order start)
  let total := format.lengthSize + length
  if total < 0x10000000000000000 then
    let (bytes, _) ← LineError.ofRead (Reader.take total start)
    return bytes
  else
    throw (.format (.unitLengthOverflow length))

end DwarfLines
