import Mathlib
import DwarfLines.Machine.Meaning
import DwarfLines.Proofs.Machine.SharedFiles

/-!
# Execution and meaning

Execution computes with machine words, while the meaning of an instruction is said with unbounded
numbers that are cut down to a word once. The two come to the same as long as the operation counter
stays within one instruction of the target, which every instruction keeps.
-/

namespace DwarfLines

namespace Registers

variable (parameters : Parameters)

/-- Whether the operation counter points into one instruction of the target. -/
def WithinInstruction (registers : Registers) : Prop :=
  registers.opIndex.toNat < parameters.maximumOperations.toNat

variable {parameters}

theorem initial_withinInstruction (h : parameters.maximumOperations ≠ 0) (defaultIsStmt : Bool) :
    (initial defaultIsStmt).WithinInstruction parameters :=
  Nat.pos_of_ne_zero fun hzero => h (UInt8.toNat_inj.mp hzero)

end Registers

namespace Instruction

variable (parameters : Parameters)

def row? (registers : Registers) (instruction : Instruction) : Option Registers :=
  if instruction.givesRow then some (instruction.shown parameters registers) else none

def left (registers : Registers) (instruction : Instruction) : Registers :=
  if instruction.givesRow then
    instruction.cleared parameters (instruction.shown parameters registers)
  else
    instruction.shown parameters registers

variable {parameters} {registers : Registers}

theorem effect_of_row {instruction : Instruction} (h : instruction.givesRow = true) :
    instruction.row? parameters registers = some (instruction.shown parameters registers) ∧
      instruction.left parameters registers =
        instruction.cleared parameters (instruction.shown parameters registers) := by
  simp [row?, left, h]

theorem effect_of_silent {instruction : Instruction} (h : instruction.givesRow = false) :
    instruction.row? parameters registers = none ∧
      instruction.left parameters registers = instruction.shown parameters registers := by
  simp [row?, left, h]

/-- Moving on with words is moving on with numbers. -/
theorem move_eq_advance {instruction : Instruction} {operations : UInt64} {lines : Int64}
    (hoperations : operations.toNat = instruction.operations parameters)
    (hlines : Int64.ofInt (instruction.lines parameters) = lines) :
    instruction.move parameters registers =
      { registers.advance parameters operations with line := registers.line + lines } := by
  have htotal : (registers.opIndex + operations).toNat =
      (registers.opIndex.toNat + operations.toNat) % 0x10000000000000000 :=
    UInt64.toNat_add _ _
  have hwidth : parameters.maximumOperations.toUInt64.toNat =
      parameters.maximumOperations.toNat := UInt8.toNat_toUInt64 _
  unfold move Registers.advance
  dsimp only
  rw [← hoperations, ← htotal, ← hwidth, ← UInt64.toNat_div, ← UInt64.toNat_mod,
    UInt64.ofNat_add, UInt64.ofNat_mul, Int64.ofInt_add, hlines]
  simp only [UInt64.ofNat_toNat, UInt64.ofNat_uInt8ToNat, Int64.ofInt_toInt]

theorem advance_zero (h : registers.WithinInstruction parameters) :
    registers.advance parameters 0 = registers := by
  have hwidth : parameters.maximumOperations.toUInt64.toNat =
      parameters.maximumOperations.toNat := UInt8.toNat_toUInt64 _
  have hwhole : registers.opIndex / parameters.maximumOperations.toUInt64 = 0 := by
    rw [← UInt64.toNat_inj, UInt64.toNat_div, hwidth]
    exact Nat.div_eq_of_lt h
  have hover : registers.opIndex % parameters.maximumOperations.toUInt64 = registers.opIndex := by
    rw [← UInt64.toNat_inj, UInt64.toNat_mod, hwidth]
    exact Nat.mod_eq_of_lt h
  simp only [Registers.advance, UInt64.add_zero, hwhole, hover, UInt64.mul_zero]

theorem move_of_no_lines {instruction : Instruction} {operations : UInt64}
    (hoperations : operations.toNat = instruction.operations parameters)
    (hlines : instruction.lines parameters = 0) :
    instruction.move parameters registers = registers.advance parameters operations := by
  have hzero : Int64.ofInt (instruction.lines parameters) = 0 := by
    rw [hlines]
    rfl
  rw [move_eq_advance hoperations hzero]
  simp [Registers.advance]

theorem operations_special {opcode : UInt8} (hbase : parameters.opcodeBase ≤ opcode) :
    ((opcode - parameters.opcodeBase) / parameters.lineRange).toNat =
      (special opcode).operations parameters := by
  rw [UInt8.toNat_div, UInt8.toNat_sub_of_le _ _ hbase]
  rfl

/-- No instruction moves on by more operations than a word can count. -/
theorem operations_lt (instruction : Instruction) : instruction.operations parameters < 2 ^ 64 := by
  cases instruction with
  | special opcode =>
    have hle : (special opcode).operations parameters ≤ opcode.toNat :=
      (Nat.div_le_self _ _).trans (Nat.sub_le _ _)
    exact hle.trans_lt (opcode.toNat_lt.trans (by decide))
  | advancePc operations => exact operations.toNat_lt
  | constAddPc =>
    have hle : constAddPc.operations parameters ≤ 255 :=
      (Nat.div_le_self _ _).trans (Nat.sub_le _ _)
    exact hle.trans_lt (by decide)
  | _ => exact Nat.two_pow_pos 64

theorem lines_special {opcode : UInt8} (hbase : parameters.opcodeBase ≤ opcode) :
    parameters.lineBase.toInt + ((opcode - parameters.opcodeBase) % parameters.lineRange).toNat =
      (special opcode).lines parameters := by
  rw [UInt8.toNat_mod, UInt8.toNat_sub_of_le _ _ hbase]
  rfl

theorem operations_constAddPc :
    parameters.constantAdvance.toNat = constAddPc.operations parameters := by
  have hadjusted : (255 - parameters.opcodeBase).toNat = 255 - parameters.opcodeBase.toNat :=
    UInt8.toNat_sub_of_le _ _ (UInt8.le_iff_toNat_le.mpr (Nat.le_of_lt_succ (UInt8.toNat_lt _)))
  rw [Parameters.constantAdvance, UInt8.toNat_div, hadjusted]
  rfl

theorem move_special {opcode : UInt8} (hbase : parameters.opcodeBase ≤ opcode) :
    (special opcode).move parameters registers =
      { registers.advance parameters
          ((opcode - parameters.opcodeBase) / parameters.lineRange).toUInt64 with
        line := registers.line + Int64.ofInt (parameters.lineBase.toInt +
          ((opcode - parameters.opcodeBase) % parameters.lineRange).toNat) } := by
  apply move_eq_advance
  · rw [UInt8.toNat_toUInt64, operations_special hbase]
  · rw [lines_special hbase]

theorem move_constAddPc :
    constAddPc.move parameters registers =
      registers.advance parameters parameters.constantAdvance.toUInt64 := by
  refine move_of_no_lines ?_ rfl
  rw [UInt8.toNat_toUInt64, operations_constAddPc]

theorem move_advanceLine (lines : Int64) (h : registers.WithinInstruction parameters) :
    (advanceLine lines).move parameters registers =
      { registers with line := registers.line + lines } := by
  have hnone : (0 : UInt64).toNat = (advanceLine lines).operations parameters := rfl
  have hlines : Int64.ofInt ((advanceLine lines).lines parameters) = lines :=
    Int64.ofInt_toInt lines
  rw [move_eq_advance hnone hlines, advance_zero h]

theorem execute_special {opcode : UInt8} (hbase : parameters.opcodeBase ≤ opcode)
    (hrange : parameters.lineRange ≠ 0) (files : FileTable) (start finish : ℕ) :
    MachineState.execute parameters ⟨registers, files⟩ start finish (special opcode) =
      .ok (MachineState.emit ⟨registers, files⟩ ((special opcode).move parameters registers)) := by
  have hnot : ¬ (opcode < parameters.opcodeBase ∨ parameters.lineRange = 0) :=
    not_or.mpr ⟨UInt8.not_lt.mpr hbase, hrange⟩
  rw [move_special hbase]
  simp only [MachineState.execute, SpecialOpcode.decode?, if_neg hnot]
  rfl

theorem execute_eq {instruction : Instruction}
    (hspecial : ∀ opcode, instruction = special opcode → parameters.opcodeBase ≤ opcode)
    (hrange : parameters.lineRange ≠ 0) (hwithin : registers.WithinInstruction parameters)
    (hquiet : instruction.declared? parameters = none) (files : FileTable) (start finish : ℕ) :
    MachineState.execute parameters ⟨registers, files⟩ start finish instruction =
      .ok (⟨instruction.left parameters registers, files⟩,
        instruction.row? parameters registers) := by
  cases instruction with
  | special opcode => exact execute_special (hspecial opcode rfl) hrange files start finish
  | advancePc operations =>
    have hshown : (advancePc operations).shown parameters registers = _ :=
      move_of_no_lines (show operations.toNat = (advancePc operations).operations parameters
        from rfl) rfl
    rw [(effect_of_silent rfl).1, (effect_of_silent rfl).2, hshown]
    rfl
  | advanceLine lines =>
    have hshown : (advanceLine lines).shown parameters registers = _ :=
      move_advanceLine lines hwithin
    rw [(effect_of_silent rfl).1, (effect_of_silent rfl).2, hshown]
    rfl
  | constAddPc =>
    have hshown : constAddPc.shown parameters registers = _ := move_constAddPc
    rw [(effect_of_silent rfl).1, (effect_of_silent rfl).2, hshown]
    rfl
  | fixedAdvancePc bytes =>
    have haddress : UInt64.ofNat (registers.address.toNat + bytes.toNat) =
        registers.address + bytes.toUInt64 := by
      rw [UInt64.ofNat_add, UInt64.ofNat_toNat, UInt64.ofNat_uInt16ToNat]
    have hshown : (fixedAdvancePc bytes).shown parameters registers =
        { registers with
          address := UInt64.ofNat (registers.address.toNat + bytes.toNat), opIndex := 0 } := rfl
    rw [(effect_of_silent rfl).1, (effect_of_silent rfl).2, hshown, haddress]
    rfl
  | defineFile record =>
    simp only [MachineState.execute, if_pos (le_version_of_quiet hquiet)]
    rfl
  | _ => rfl

theorem shown_withinInstruction (hwidth : parameters.maximumOperations ≠ 0)
    (hwithin : registers.WithinInstruction parameters) (instruction : Instruction) :
    (instruction.shown parameters registers).WithinInstruction parameters := by
  have hpos : 0 < parameters.maximumOperations.toNat :=
    Nat.pos_of_ne_zero fun hzero => hwidth (UInt8.toNat_inj.mp hzero)
  have hmove : (instruction.move parameters registers).WithinInstruction parameters := by
    have hlt := Nat.mod_lt ((registers.opIndex.toNat + instruction.operations parameters) %
      0x10000000000000000) hpos
    have hword := hlt.trans (parameters.maximumOperations.toNat_lt.trans
      (by decide : 2 ^ 8 < UInt64.size))
    unfold Registers.WithinInstruction move
    dsimp only
    rw [UInt64.toNat_ofNat_of_lt' hword]
    exact hlt
  cases instruction with
  | special opcode => exact hmove
  | advancePc operations => exact hmove
  | constAddPc => exact hmove
  | advanceLine lines => exact hmove
  | setAddress address => exact hpos
  | fixedAdvancePc bytes => exact hpos
  | _ => exact hwithin

/-- No instruction moves the operation counter out of an instruction of the target. -/
theorem left_withinInstruction (hwidth : parameters.maximumOperations ≠ 0)
    (hwithin : registers.WithinInstruction parameters) (instruction : Instruction) :
    (instruction.left parameters registers).WithinInstruction parameters := by
  have hshown := shown_withinInstruction hwidth hwithin instruction
  unfold left
  split_ifs
  · cases instruction with
    | endSequence => exact Registers.initial_withinInstruction hwidth _
    | _ => exact hshown
  · exact hshown

end Instruction
end DwarfLines
