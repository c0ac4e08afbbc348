import DwarfLines.Files.LegacyLists
import DwarfLines.Header.Basic

/-!
# Instructions of the line number program

Decoding splits the bytes of a program into instructions. An extended instruction declares its
own length, and the declared end is where the next instruction begins, whatever the operands
took; operands that run past it are a fault, which is noticed after the instruction was executed.
-/

namespace DwarfLines

/-- One instruction with its operands. -/
inductive Instruction where
  | special (opcode : UInt8)
  | copy
  | advancePc (operations : UInt64)
  | advanceLine (lines : Int64)
  | setFile (index : UInt64)
  | setColumn (column : UInt64)
  | negateStmt
  | setBasicBlock
  | constAddPc
  | fixedAdvancePc (bytes : UInt16)
  | setPrologueEnd
  | setEpilogueBegin
  | setIsa (isa : UInt64)
  | endSequence
  | setAddress (address : UInt64)
  | defineFile (record : FileRecord)
  | setDiscriminator (discriminator : UInt64)
  deriving DecidableEq, Repr

/-- The end that an extended instruction declares. -/
structure DeclaredEnd where
  opcode : UInt8
  offset : Nat
  deriving DecidableEq, Repr

structure Decoded where
  instruction : Instruction
  declaredEnd : Option DeclaredEnd := none
  deriving DecidableEq, Repr

namespace Instruction

variable (parameters : Parameters)

def readStandard (opcode : UInt8) : Reader LineError Instruction :=
  match StandardOpcode.ofCode? opcode with
  | some .copy => return copy
  | some .advancePc => do return advancePc (← Reader.uleb128)
  | some .advanceLine => do return advanceLine (← Reader.sleb128)
  | some .setFile => do return setFile (← Reader.uleb128)
  | some .setColumn => do return setColumn (← Reader.uleb128)
  | some .negateStmt => return negateStmt
  | some .setBasicBlock => return setBasicBlock
  | some .constAddPc => return constAddPc
  | some .fixedAdvancePc => do return fixedAdvancePc (← Reader.uint16 parameters.order)
  | some .setPrologueEnd => return setPrologueEnd
  | some .setEpilogueBegin => return setEpilogueBegin
  | some .setIsa => do return setIsa (← Reader.uleb128)
  | none => Reader.reject (.unknownStandardOpcode opcode)

def readFileRecord : Reader ReadError FileRecord := do
  LegacyLists.fileDetails (Utf8.decode (← Reader.terminated))

def readExtended (opcode : UInt8) : Reader LineError Instruction :=
  match ExtendedOpcode.ofCode? opcode with
  | some .endSequence => return endSequence
  | some .setAddress => do
    return setAddress (← Reader.address parameters.order parameters.addressSize)
  | some .defineFile => do return defineFile (← readFileRecord)
  | some .setDiscriminator => do return setDiscriminator (← Reader.uleb128)
  | _ =>
    if opcode < 0x80 then
      Reader.reject (.unknownExtendedOpcode opcode)
    else
      throw (.vendorOpcode opcode)

end Instruction

namespace Decoded

def readExtended (parameters : Parameters) : Reader LineError Decoded := do
  let length ← Reader.uleb128
  let finish := (← Reader.offset) + length.toNat
  if finish < 0x10000000000000000 then
    let opcode ← Reader.byte
    let instruction ← Instruction.readExtended parameters opcode
    return { instruction, declaredEnd := some { opcode, offset := finish } }
  else
    Reader.reject (.extendedLengthOverflow length)

def read (parameters : Parameters) : Reader LineError Decoded := do
  let opcode ← Reader.byte
  if parameters.opcodeBase ≤ opcode then
    return { instruction := .special opcode }
  else if opcode = 0 then
    readExtended parameters
  else
    return { instruction := ← Instruction.readStandard parameters opcode }

end Decoded

def Decoded.close (decoded : Decoded) : Reader LineError Unit := do
  match decoded.declaredEnd with
  | none => return
  | some declared =>
    if declared.offset < (← Reader.offset) then
      Reader.reject (.extendedOverrun declared.opcode)
    else
      Reader.seek declared.offset

namespace Instruction

theorem forward_readStandard (parameters : Parameters) (opcode : UInt8) :
    (readStandard parameters opcode).Forward := by
  have unsigned := Reader.forward_lift Reader.consuming_uleb128.forward
  have signed := Reader.forward_lift Reader.consuming_sleb128.forward
  have fixed := Reader.forward_lift (Reader.forward_uint16 parameters.order)
  unfold readStandard
  split
  · exact Reader.forward_pure _
  · exact unsigned.bind fun _ => Reader.forward_pure _
  · exact signed.bind fun _ => Reader.forward_pure _
  · exact unsigned.bind fun _ => Reader.forward_pure _
  · exact unsigned.bind fun _ => Reader.forward_pure _
  · exact Reader.forward_pure _
  · exact Reader.forward_pure _
  · exact Reader.forward_pure _
  · exact fixed.bind fun _ => Reader.forward_pure _
  · exact Reader.forward_pure _
  · exact Reader.forward_pure _
  · exact unsigned.bind fun _ => Reader.forward_pure _
  · exact Reader.forward_reject _

theorem forward_readFileRecord : readFileRecord.Forward :=
  Reader.consuming_terminated.forward.bind fun _ => LegacyLists.forward_fileDetails _

theorem forward_readExtended (parameters : Parameters) (opcode : UInt8) :
    (readExtended parameters opcode).Forward := by
  unfold readExtended
  split
  · exact Reader.forward_pure _
  · exact (Reader.forward_lift (Reader.forward_address _ _)).bind fun _ => Reader.forward_pure _
  · exact (Reader.forward_lift forward_readFileRecord).bind fun _ => Reader.forward_pure _
  · exact (Reader.forward_lift Reader.consuming_uleb128.forward).bind fun _ =>
      Reader.forward_pure _
  · split
    · exact Reader.forward_reject _
    · exact Reader.forward_throw _

end Instruction

namespace Decoded

theorem forward_readExtended (parameters : Parameters) : (readExtended parameters).Forward := by
  refine (Reader.forward_lift Reader.consuming_uleb128.forward).bind fun _ =>
    Reader.forward_offset.bind fun _ => ?_
  dsimp only
  split
  · exact (Reader.forward_lift Reader.consuming_byte.forward).bind fun _ =>
      (Instruction.forward_readExtended _ _).bind fun _ => Reader.forward_pure _
  · exact Reader.forward_reject _

theorem consuming_read (parameters : Parameters) : (read parameters).Consuming := by
  refine (Reader.consuming_lift Reader.consuming_byte).bind fun _ => ?_
  split
  · exact Reader.forward_pure _
  · split
    · exact forward_readExtended _
    · exact (Instruction.forward_readStandard _ _).bind fun _ => Reader.forward_pure _

theorem forward_close (decoded : Decoded) : decoded.close.Forward := by
  unfold close
  split
  · exact Reader.forward_pure _
  · refine Reader.forward_offset.bind fun _ => ?_
    split
    · exact Reader.forward_reject _
    · exact Reader.forward_seek _

end Decoded
end DwarfLines
