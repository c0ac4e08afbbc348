import DwarfLines.Header.Basic

/-!
# Registers of the line number machine

A row of the table is a snapshot of the registers. Addresses and counters are words that wrap
around; the line is signed, so that a program which moves before the first line stays visible.
-/

namespace DwarfLines

/-- The state of the machine between two instructions. -/
structure Registers where
  address : UInt64
  opIndex : UInt64
  fileIndex : UInt64
  line : Int64
  column : UInt64
  isStmt : Bool
  basicBlock : Bool
  endSequence : Bool
  prologueEnd : Bool
  epilogueBegin : Bool
  isa : UInt64
  discriminator : UInt64
  deriving DecidableEq, Repr

namespace Registers

/-- The registers at the start of a sequence. -/
def initial (defaultIsStmt : Bool) : Registers where
  address := 0
  opIndex := 0
  fileIndex := 1
  line := 1
  column := 0
  isStmt := defaultIsStmt
  basicBlock := false
  endSequence := false
  prologueEnd := false
  epilogueBegin := false
  isa := 0
  discriminator := 0

variable (registers : Registers)

/-- Moves on by a number of operations. Whole instructions move the address, and what is left
over is the operation within the instruction. -/
def advance (parameters : Parameters) (operations : UInt64) : Registers :=
  let total := registers.opIndex + operations
  let width := parameters.maximumOperations.toUInt64
  { registers with
    address := registers.address +
      parameters.minimumInstructionLength.toUInt64 * (total / width)
    opIndex := total % width }

def clearRowFlags : Registers :=
  { registers with
    basicBlock := false
    prologueEnd := false
    epilogueBegin := false
    discriminator := 0 }

end Registers

structure SpecialOpcode where
  adjusted : UInt8
  operationAdvance : UInt8
  lineIncrement : Int64
  deriving DecidableEq, Repr

/-- The effect of an opcode, if it is a special one and the line range is not zero. -/
def SpecialOpcode.decode? (opcode opcodeBase : UInt8) (lineBase : Int8) (lineRange : UInt8) :
    Option SpecialOpcode :=
  if opcode < opcodeBase ∨ lineRange = 0 then
    none
  else
    let adjusted := opcode - opcodeBase
    some {
      adjusted
      operationAdvance := adjusted / lineRange
      lineIncrement := Int64.ofInt (lineBase.toInt + (adjusted % lineRange).toNat) }

/-- The operations that `DW_LNS_const_add_pc` moves on by: those of special opcode 255. -/
def Parameters.constantAdvance (parameters : Parameters) : UInt8 :=
  (255 - parameters.opcodeBase) / parameters.lineRange

end DwarfLines
