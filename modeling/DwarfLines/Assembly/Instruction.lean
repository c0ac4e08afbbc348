import DwarfLines.Bytes.Leb128
import DwarfLines.Machine.Instruction

/-!
# Writing instructions

A program is written as the instructions one after another, each with the shortest numbers. An
extended instruction may be followed by padding that its declared length includes. Not every
instruction can be written under every header: a standard opcode must lie below the opcode base
and a special one above it, and an address must fit its size.
-/

namespace DwarfLines

def terminatedBytes (text : String) : List UInt8 := Utf8.encode text ++ [0]

def hasNoZero (text : String) : Bool := !text.toList.contains (Char.ofNat 0)

def FileRecord.bytes (record : FileRecord) : List UInt8 :=
  terminatedBytes record.name ++ Leb128.unsignedBytes record.directoryIndex.toNat ++
    Leb128.unsignedBytes record.timestamp.toNat ++ Leb128.unsignedBytes record.size.toNat

def FileRecord.isWritable (record : FileRecord) : Bool :=
  !record.name.isEmpty && hasNoZero record.name

namespace Instruction

variable (parameters : Parameters)

def extendedBytes (opcode : ExtendedOpcode) (operands padding : List UInt8) : List UInt8 :=
  0 :: Leb128.unsignedBytes (1 + operands.length + padding.length) ++
    opcode.code :: operands ++ padding

def standardBytes (opcode : StandardOpcode) (operand : List UInt8) : List UInt8 :=
  opcode.code :: operand

def paddedBytes (padding : List UInt8) : Instruction → List UInt8
  | special opcode => [opcode]
  | copy => standardBytes .copy []
  | advancePc operations => standardBytes .advancePc (Leb128.unsignedBytes operations.toNat)
  | advanceLine lines => standardBytes .advanceLine (Leb128.signedBytes lines.toInt)
  | setFile index => standardBytes .setFile (Leb128.unsignedBytes index.toNat)
  | setColumn column => standardBytes .setColumn (Leb128.unsignedBytes column.toNat)
  | negateStmt => standardBytes .negateStmt []
  | setBasicBlock => standardBytes .setBasicBlock []
  | constAddPc => standardBytes .constAddPc []
  | fixedAdvancePc bytes => standardBytes .fixedAdvancePc (parameters.order.bytes 2 bytes.toNat)
  | setPrologueEnd => standardBytes .setPrologueEnd []
  | setEpilogueBegin => standardBytes .setEpilogueBegin []
  | setIsa isa => standardBytes .setIsa (Leb128.unsignedBytes isa.toNat)
  | endSequence => extendedBytes .endSequence [] padding
  | setAddress address =>
    extendedBytes .setAddress
      (parameters.order.bytes parameters.addressSize.toNat address.toNat) padding
  | defineFile record => extendedBytes .defineFile record.bytes padding
  | setDiscriminator discriminator =>
    extendedBytes .setDiscriminator (Leb128.unsignedBytes discriminator.toNat) padding

def bytes (instruction : Instruction) : List UInt8 := paddedBytes parameters [] instruction

def listBytes (program : List Instruction) : List UInt8 := program.flatMap (bytes parameters)

def standardOpcode? : Instruction → Option StandardOpcode
  | copy => some .copy
  | advancePc _ => some .advancePc
  | advanceLine _ => some .advanceLine
  | setFile _ => some .setFile
  | setColumn _ => some .setColumn
  | negateStmt => some .negateStmt
  | setBasicBlock => some .setBasicBlock
  | constAddPc => some .constAddPc
  | fixedAdvancePc _ => some .fixedAdvancePc
  | setPrologueEnd => some .setPrologueEnd
  | setEpilogueBegin => some .setEpilogueBegin
  | setIsa _ => some .setIsa
  | _ => none

def isWritable (instruction : Instruction) : Bool :=
  match instruction.standardOpcode?, instruction with
  | some opcode, _ => opcode.code < parameters.opcodeBase
  | none, special opcode => parameters.opcodeBase ≤ opcode
  | none, setAddress address =>
    [1, 2, 4, 8].contains parameters.addressSize &&
      parameters.order.value
        (parameters.order.bytes parameters.addressSize.toNat address.toNat) == address.toNat
  | none, defineFile record => record.isWritable
  | none, _ => true

end Instruction
end DwarfLines
