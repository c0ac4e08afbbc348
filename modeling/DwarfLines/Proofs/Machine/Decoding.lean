import Mathlib
import DwarfLines.Machine.Execution
import DwarfLines.Proofs.Bytes.Reads

/-!
# Instructions are read back

An instruction that can be written is read back from its bytes, and closing it passes exactly the
padding behind its operands. `Decoded.reads_padded` says so for instructions of every class.
-/

namespace DwarfLines

namespace LegacyLists

theorem reads_fileDetails (record : FileRecord) (offset : ℕ) :
    (fileDetails record.name).Reads offset
      (Leb128.unsignedBytes record.directoryIndex.toNat ++
        (Leb128.unsignedBytes record.timestamp.toNat ++ Leb128.unsignedBytes record.size.toNat))
      record := by
  unfold fileDetails
  exact (Reader.reads_uleb128 _ _).bind
    ((Reader.reads_uleb128 _ _).bind ((Reader.reads_uleb128 _ _).bind_pure _))

end LegacyLists

theorem FileRecord.isWritable_iff (record : FileRecord) :
    record.isWritable = true ↔ record.name ≠ "" ∧ Char.ofNat 0 ∉ record.name.toList := by
  simp [isWritable, hasNoZero]

namespace Instruction

variable (parameters : Parameters)

theorem reads_readFileRecord {record : FileRecord} (h : Char.ofNat 0 ∉ record.name.toList)
    (offset : ℕ) : readFileRecord.Reads offset record.bytes record := by
  have details := LegacyLists.reads_fileDetails record
    (offset + (terminatedBytes record.name).length)
  unfold readFileRecord FileRecord.bytes
  simp only [List.append_assoc] at details ⊢
  apply (Reader.reads_terminatedBytes h offset).bind
  rw [Utf8.decode_encode]
  exact details

theorem reads_readStandard {instruction : Instruction} {opcode : StandardOpcode}
    (h : instruction.standardOpcode? = some opcode) (padding : List UInt8) :
    ∃ operand, instruction.paddedBytes parameters padding = opcode.code :: operand ∧
      ∀ offset, (readStandard parameters opcode.code).Reads offset operand instruction := by
  have unsigned (offset : ℕ) (n : UInt64) := (Reader.reads_uleb128 offset n).lift
  have signed (offset : ℕ) (n : Int64) := (Reader.reads_sleb128 offset n).lift
  have fixed (offset : ℕ) (n : UInt16) := (Reader.reads_uint16 parameters.order offset n).lift
  cases instruction <;> cases h <;> refine ⟨_, rfl, fun offset => ?_⟩
  case advancePc operations => exact (unsigned offset operations).bind_pure _
  case advanceLine lines => exact (signed offset lines).bind_pure _
  case setFile index => exact (unsigned offset index).bind_pure _
  case setColumn column => exact (unsigned offset column).bind_pure _
  case fixedAdvancePc bytes => exact (fixed offset bytes).bind_pure _
  case setIsa isa => exact (unsigned offset isa).bind_pure _
  all_goals exact Reader.reads_pure _ _

end Instruction

namespace Decoded

variable (parameters : Parameters)

theorem reads_extended_of {instruction : Instruction} {opcode : UInt8} {length : UInt64}
    {lengthBytes operands : List UInt8} {offset : ℕ} (hbase : parameters.opcodeBase ≠ 0)
    (hlength : ∀ start, Reader.uleb128.Reads start lengthBytes length)
    (hread : ∀ start, (Instruction.readExtended parameters opcode).Reads start operands instruction)
    (hfit : offset + (1 + lengthBytes.length + length.toNat) < 2 ^ 64) :
    (Decoded.read parameters).Reads offset (0 :: lengthBytes ++ opcode :: operands)
      { instruction
        declaredEnd := some
          { opcode, offset := offset + (1 + lengthBytes.length + length.toNat) } } := by
  have hnot : ¬ parameters.opcodeBase ≤ 0 := by
    intro hle
    exact hbase (UInt8.le_antisymm hle (UInt8.zero_le))
  apply Reader.Reads.byte_bind
  simp only [hnot, if_true, if_false]
  apply (hlength _).lift.bind
  apply (Reader.reads_offset _).nil_bind
  have hfinish : offset + [(0 : UInt8)].length + lengthBytes.length + length.toNat =
      offset + (1 + lengthBytes.length + length.toNat) := by
    rw [List.length_singleton]
    omega
  have hless : offset + (1 + lengthBytes.length + length.toNat) < 0x10000000000000000 := hfit
  simp only [hfinish, hless, if_true]
  apply Reader.Reads.byte_bind
  exact (hread _).bind_pure _

theorem reads_extended {instruction : Instruction} {opcode : ExtendedOpcode}
    {operands padding : List UInt8} {offset : ℕ} (hbase : parameters.opcodeBase ≠ 0)
    (hread : ∀ start, (Instruction.readExtended parameters opcode.code).Reads start operands
      instruction)
    (hfit : offset + (Instruction.extendedBytes opcode operands padding).length < 2 ^ 64) :
    (Decoded.read parameters).Reads offset
      (0 :: Leb128.unsignedBytes (1 + operands.length + padding.length) ++
        opcode.code :: operands)
      { instruction
        declaredEnd := some
          { opcode := opcode.code
            offset :=
              offset + (Instruction.extendedBytes opcode operands padding).length } } := by
  set count := 1 + operands.length + padding.length with hcount
  have hlength : (Instruction.extendedBytes opcode operands padding).length =
      1 + (Leb128.unsignedBytes count).length + count := by
    simp [Instruction.extendedBytes, hcount]
    omega
  rw [hlength] at hfit ⊢
  have hword : (UInt64.ofNat count).toNat = count := by
    rw [UInt64.toNat_ofNat']
    exact Nat.mod_eq_of_lt (by omega)
  have hcountBytes (start : ℕ) :
      Reader.uleb128.Reads start (Leb128.unsignedBytes count) (UInt64.ofNat count) :=
    Reader.reads_uleb128_ofNat start (by omega)
  have hless : offset + (1 + (Leb128.unsignedBytes count).length + (UInt64.ofNat count).toNat) <
      2 ^ 64 := by
    rw [hword]
    exact hfit
  have hreads := reads_extended_of parameters hbase hcountBytes hread hless
  rw [hword] at hreads
  exact hreads

theorem reads_close {instruction : Instruction} {opcode : UInt8} (offset : ℕ)
    (padding : List UInt8) :
    (Decoded.close
      { instruction
        declaredEnd := some { opcode, offset := offset + padding.length } }).Reads
      offset padding () := by
  have hnot : ¬ offset + padding.length < offset := by omega
  unfold close
  apply (Reader.reads_offset _).nil_bind
  simp only [hnot, if_false]
  apply (Reader.reads_offset _).nil_bind
  simp only [hnot, if_false, Nat.add_sub_cancel_left]
  exact (Reader.reads_skip _ _).lift

theorem reads_close_none {instruction : Instruction} (offset : ℕ) :
    (Decoded.close { instruction }).Reads offset [] () :=
  Reader.reads_pure _ _

/-- How an instruction is read: a front part gives it, and closing it passes the rest. -/
def ReadsAs (instruction : Instruction) (offset : ℕ) (bytes : List UInt8) : Prop :=
  ∃ front back decoded, bytes = front ++ back ∧ front ≠ [] ∧
    decoded.instruction = instruction ∧ (Decoded.read parameters).Reads offset front decoded ∧
      decoded.close.Reads (offset + front.length) back ()

variable {parameters}

theorem readsAs_standard_of {instruction : Instruction} {opcode : StandardOpcode}
    {operand : List UInt8} (hlt : opcode.code < parameters.opcodeBase)
    (hread : ∀ start,
      (Instruction.readStandard parameters opcode.code).Reads start operand instruction)
    (offset : ℕ) : ReadsAs parameters instruction offset (opcode.code :: operand) := by
  refine ⟨_, [], { instruction }, (List.append_nil _).symm, by simp, rfl, ?_, reads_close_none _⟩
  apply Reader.Reads.byte_bind
  simp only [UInt8.not_le.mpr hlt, opcode.code_ne_zero, if_false]
  exact (hread _).bind_pure _

theorem readsAs_standard {instruction : Instruction} {opcode : StandardOpcode}
    (h : instruction.standardOpcode? = some opcode) (hlt : opcode.code < parameters.opcodeBase)
    (padding : List UInt8) (offset : ℕ) :
    ReadsAs parameters instruction offset (instruction.paddedBytes parameters padding) := by
  obtain ⟨operand, hbytes, hread⟩ := Instruction.reads_readStandard parameters h padding
  rw [hbytes]
  exact readsAs_standard_of hlt hread offset

theorem readsAs_special {opcode : UInt8} (h : parameters.opcodeBase ≤ opcode)
    (padding : List UInt8) (offset : ℕ) :
    ReadsAs parameters (.special opcode) offset
      ((Instruction.special opcode).paddedBytes parameters padding) := by
  refine ⟨[opcode], [], { instruction := .special opcode }, rfl, by simp, rfl, ?_,
    reads_close_none _⟩
  apply (Reader.reads_byte offset opcode).lift.bind_nil
  simp only [h, if_true]
  exact Reader.reads_pure _ _

theorem readsAs_extended {instruction : Instruction} {opcode : ExtendedOpcode}
    {operands padding : List UInt8} {offset : ℕ} (hbase : parameters.opcodeBase ≠ 0)
    (hread : ∀ start, (Instruction.readExtended parameters opcode.code).Reads start operands
      instruction)
    (hfit : offset + (Instruction.extendedBytes opcode operands padding).length < 2 ^ 64) :
    ReadsAs parameters instruction offset
      (Instruction.extendedBytes opcode operands padding) := by
  have hfront := reads_extended parameters hbase hread hfit
  refine ⟨_, padding, _, by simp [Instruction.extendedBytes], by simp, rfl, hfront, ?_⟩
  have hlength : offset + (Instruction.extendedBytes opcode operands padding).length =
      offset + (0 :: Leb128.unsignedBytes (1 + operands.length + padding.length) ++
        opcode.code :: operands).length + padding.length := by
    simp [Instruction.extendedBytes]
    omega
  rw [hlength]
  exact reads_close _ padding

end Decoded

namespace Instruction

variable {parameters : Parameters}

theorem readsAs_endSequence (hbase : parameters.opcodeBase ≠ 0) {padding : List UInt8}
    {offset : ℕ} (hfit : offset + (endSequence.paddedBytes parameters padding).length < 2 ^ 64) :
    Decoded.ReadsAs parameters endSequence offset
      (endSequence.paddedBytes parameters padding) := by
  refine Decoded.readsAs_extended hbase (fun start => ?_) hfit
  exact Reader.reads_pure _ _

theorem setAddress_isWritable_iff (address : UInt64) :
    (setAddress address).isWritable parameters = true ↔
      (parameters.addressSize = 1 ∨ parameters.addressSize = 2 ∨ parameters.addressSize = 4 ∨
        parameters.addressSize = 8) ∧ address.toNat < 256 ^ parameters.addressSize.toNat := by
  change ([1, 2, 4, 8].contains parameters.addressSize && _) = true ↔ _
  rw [Bool.and_eq_true, beq_iff_eq, ByteOrder.value_bytes_mod,
    Nat.mod_eq_iff_lt (Nat.pos_iff_ne_zero.mp (Nat.pow_pos (by decide)))]
  simp

theorem readsAs_setAddress (hbase : parameters.opcodeBase ≠ 0) {address : UInt64}
    (hw : (setAddress address).isWritable parameters = true) {padding : List UInt8} {offset : ℕ}
    (hfit : offset + ((setAddress address).paddedBytes parameters padding).length < 2 ^ 64) :
    Decoded.ReadsAs parameters (setAddress address) offset
      ((setAddress address).paddedBytes parameters padding) := by
  obtain ⟨hsize, hlt⟩ := (setAddress_isWritable_iff address).mp hw
  refine Decoded.readsAs_extended hbase (fun start => ?_) hfit
  exact (Reader.reads_address parameters.order start hsize hlt).lift.bind_pure _

theorem readsAs_defineFile (hbase : parameters.opcodeBase ≠ 0) {record : FileRecord}
    (hw : record.isWritable = true) {padding : List UInt8} {offset : ℕ}
    (hfit : offset + ((defineFile record).paddedBytes parameters padding).length < 2 ^ 64) :
    Decoded.ReadsAs parameters (defineFile record) offset
      ((defineFile record).paddedBytes parameters padding) := by
  refine Decoded.readsAs_extended hbase (fun start => ?_) hfit
  exact (reads_readFileRecord (record.isWritable_iff.mp hw).2 start).lift.bind_pure _

theorem readsAs_setDiscriminator (hbase : parameters.opcodeBase ≠ 0) {discriminator : UInt64}
    {padding : List UInt8} {offset : ℕ}
    (hfit : offset + ((setDiscriminator discriminator).paddedBytes parameters padding).length <
      2 ^ 64) :
    Decoded.ReadsAs parameters (setDiscriminator discriminator) offset
      ((setDiscriminator discriminator).paddedBytes parameters padding) := by
  refine Decoded.readsAs_extended hbase (fun start => ?_) hfit
  exact (Reader.reads_uleb128 start discriminator).lift.bind_pure _

/-- Every instruction that can be written is read back, whatever padding it is given. -/
theorem readsAs_paddedBytes (hbase : parameters.opcodeBase ≠ 0) {instruction : Instruction}
    (hw : instruction.isWritable parameters = true) {padding : List UInt8} {offset : ℕ}
    (hfit : offset + (instruction.paddedBytes parameters padding).length < 2 ^ 64) :
    Decoded.ReadsAs parameters instruction offset
      (instruction.paddedBytes parameters padding) := by
  cases hstandard : instruction.standardOpcode? with
  | some opcode =>
    refine Decoded.readsAs_standard hstandard ?_ padding offset
    simpa only [isWritable, hstandard, decide_eq_true_eq] using hw
  | none =>
    cases instruction with
    | special opcode => exact Decoded.readsAs_special (of_decide_eq_true hw) padding offset
    | endSequence => exact readsAs_endSequence hbase hfit
    | setAddress address => exact readsAs_setAddress hbase hw hfit
    | defineFile record => exact readsAs_defineFile hbase hw hfit
    | setDiscriminator discriminator => exact readsAs_setDiscriminator hbase hfit
    | _ => cases hstandard

end Instruction

namespace MachineState

variable {parameters : Parameters}

/-- A step on bytes that are read as an instruction executes it and moves to their end. -/
theorem step_of_readsAs {instruction : Instruction} {offset : ℕ} {bytes : List UInt8}
    (h : Decoded.ReadsAs parameters instruction offset bytes) (state : MachineState)
    (rest : List UInt8) :
    ∃ finish, offset < finish ∧ finish ≤ offset + bytes.length ∧
      step parameters state ⟨offset, bytes ++ rest⟩ =
        match state.execute parameters offset finish instruction with
        | .error e => (state, .error e)
        | .ok (next, row) => (next, .ok (row, ⟨offset + bytes.length, rest⟩)) := by
  obtain ⟨front, back, decoded, rfl, hfront, rfl, hread, hclose⟩ := h
  have hpos := List.length_pos_of_ne_nil hfront
  refine ⟨offset + front.length, by omega, by simp, ?_⟩
  unfold step
  rw [List.append_assoc, hread]
  dsimp only
  cases state.execute parameters offset (offset + front.length) decoded.instruction with
  | error e => rfl
  | ok result =>
    obtain ⟨next, row⟩ := result
    dsimp only
    rw [hclose, List.length_append, Nat.add_assoc]

end MachineState
end DwarfLines
