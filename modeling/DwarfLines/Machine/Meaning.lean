import DwarfLines.Machine.Instruction
import DwarfLines.Table.Pass

/-!
# What a program means

A program is a list of instructions, and what it means does not depend on how they are written.
Each instruction changes the registers or declares a file, and some give a row. A program is in
order if the last of its instructions gives a row and each row names a known file; otherwise it
ends with a fault, after the rows that came before.
-/

namespace DwarfLines

/-- The rows that a program gives, the files known in the end, and how it ends. -/
structure ProgramMeaning where
  rows : List Row
  files : List FileEntry
  fault : Option LineError
  deriving DecidableEq, Repr

namespace Instruction

variable (parameters : Parameters)

/-- How many operations an instruction moves on by. -/
def operations : Instruction → Nat
  | special opcode => (opcode.toNat - parameters.opcodeBase.toNat) / parameters.lineRange.toNat
  | advancePc operations => operations.toNat
  | constAddPc => (255 - parameters.opcodeBase.toNat) / parameters.lineRange.toNat
  | _ => 0

/-- How many lines an instruction moves on by. -/
def lines : Instruction → Int
  | special opcode =>
    parameters.lineBase.toInt +
      ((opcode.toNat - parameters.opcodeBase.toNat) % parameters.lineRange.toNat : Nat)
  | advanceLine lines => lines.toInt
  | _ => 0

def givesRow : Instruction → Bool
  | special _ | copy | endSequence => true
  | _ => false

/-- The registers moved on as an instruction says. Operations fill up instructions of a fixed
number of operations, and everything wraps around. -/
def move (registers : Registers) (instruction : Instruction) : Registers :=
  let total := (registers.opIndex.toNat + instruction.operations parameters) % 0x10000000000000000
  let width := parameters.maximumOperations.toNat
  { registers with
    address := UInt64.ofNat
      (registers.address.toNat + parameters.minimumInstructionLength.toNat * (total / width))
    opIndex := UInt64.ofNat (total % width)
    line := Int64.ofInt (registers.line.toInt + instruction.lines parameters) }

/-- The registers that a row shows, or that the next instruction finds if there is no row. -/
def shown (registers : Registers) (instruction : Instruction) : Registers :=
  match instruction with
  | special _ | advancePc _ | constAddPc | advanceLine _ => instruction.move parameters registers
  | copy | defineFile _ => registers
  | setFile index => { registers with fileIndex := index }
  | setColumn column => { registers with column }
  | negateStmt => { registers with isStmt := !registers.isStmt }
  | setBasicBlock => { registers with basicBlock := true }
  | fixedAdvancePc bytes =>
    { registers with
      address := UInt64.ofNat (registers.address.toNat + bytes.toNat), opIndex := 0 }
  | setPrologueEnd => { registers with prologueEnd := true }
  | setEpilogueBegin => { registers with epilogueBegin := true }
  | setIsa isa => { registers with isa }
  | endSequence => { registers with endSequence := true }
  | setAddress address => { registers with address, opIndex := 0 }
  | setDiscriminator discriminator => { registers with discriminator }

/-- The registers after a row that showed the given ones. -/
def cleared (registers : Registers) : Instruction → Registers
  | endSequence => .initial parameters.defaultIsStmt
  | _ => { registers with
      basicBlock := false, prologueEnd := false, epilogueBegin := false, discriminator := 0 }

end Instruction

/-- What a program means that finds the given registers and files. Whether instructions before it
still wait for a row is told by `waiting`. -/
def ProgramMeaning.of (parameters : Parameters) (waiting : Bool) (registers : Registers)
    (table : FileTable) : List Instruction → ProgramMeaning
  | [] =>
    { rows := []
      files := table.files
      fault := if waiting then some (.format .unexpectedProgramEnd) else none }
  | instruction :: rest =>
    let shown := instruction.shown parameters registers
    if instruction.givesRow then
      match table.file? shown.fileIndex with
      | none =>
        { rows := [], files := table.files
          fault := some (.format (.badFileIndex shown.fileIndex)) }
      | some file =>
        let more := of parameters false (instruction.cleared parameters shown) table rest
        { more with rows := { registers := shown, file } :: more.rows }
    else
      match instruction with
      | .defineFile record =>
        if 5 ≤ parameters.version then
          of parameters true shown table rest
        else
          match table.entryOf record with
          | .error e => { rows := [], files := table.files, fault := some e }
          | .ok entry => of parameters true shown (table.append entry) rest
      | _ => of parameters true shown table rest

end DwarfLines
