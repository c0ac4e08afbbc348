import Mathlib
import DwarfLines.Proofs.Bytes.Gives
import DwarfLines.Proofs.Machine.Declarations
import DwarfLines.Proofs.Machine.Effects

/-!
# Advances add up

An instruction of the target holds a fixed number of operations, and moving on by operations
carries whole instructions over into the address. A program may move on in small steps or in large
ones, and between them change whatever else it likes: what counts for the address and the
operation counter is the number of operations in all, as long as the machine's word can count them.
-/

namespace DwarfLines

namespace Instruction

/-- Whether an instruction moves on by operations alone. The others set the address, add bytes to
it or begin a new sequence. -/
def movesByOperations : Instruction → Bool
  | setAddress _ | fixedAdvancePc _ | endSequence => false
  | _ => true

def totalOperations (parameters : Parameters) (instructions : List Instruction) : ℕ :=
  (instructions.map (·.operations parameters)).sum

end Instruction

namespace Registers

/-- Instructions executed one after another from a cursor on. The file table may be another one
for each of them, because other passes extend it. -/
inductive Executes (parameters : Parameters) :
    Registers → Cursor → List Instruction → Registers → Cursor → Prop
  | nil (registers : Registers) (c : Cursor) : Executes parameters registers c [] registers c
  | cons {registers later : Registers} {c place d : Cursor} {instruction : Instruction}
    {instructions : List Instruction} {state : MachineState} {row : Option Registers}
    (files : FileTable) (hread : Instruction.readWhole parameters c = .ok (instruction, place))
    (hstep : MachineState.step parameters ⟨registers, files⟩ c = (state, .ok (row, place)))
    (hrest : Executes parameters state.registers place instructions later d) :
    Executes parameters registers c (instruction :: instructions) later d

/-- Registers whose address and operation counter are those of others some operations later. -/
structure MovedBy (parameters : Parameters) (registers : Registers) (operations : ℕ)
    (later : Registers) : Prop where
  address : later.address.toNat =
    (registers.address.toNat + parameters.minimumInstructionLength.toNat *
      ((registers.opIndex.toNat + operations) / parameters.maximumOperations.toNat)) % 2 ^ 64
  opIndex : later.opIndex.toNat =
    (registers.opIndex.toNat + operations) % parameters.maximumOperations.toNat

namespace MovedBy

variable {parameters : Parameters} {registers later last : Registers} {first second : ℕ}

theorem congr {other : Registers} (h : registers.MovedBy parameters first later)
    (haddress : other.address = later.address) (hopIndex : other.opIndex = later.opIndex) :
    registers.MovedBy parameters first other := by
  constructor
  · rw [haddress, h.address]
  · rw [hopIndex, h.opIndex]

theorem stays (h : registers.WithinInstruction parameters) :
    registers.MovedBy parameters 0 registers := by
  constructor
  · rw [Nat.add_zero, Nat.div_eq_of_lt h, Nat.mul_zero, Nat.add_zero,
      Nat.mod_eq_of_lt registers.address.toNat_lt]
  · rw [Nat.add_zero, Nat.mod_eq_of_lt h]

theorem of_advance {operations : UInt64}
    (h : registers.opIndex.toNat + operations.toNat < 2 ^ 64) :
    registers.MovedBy parameters operations.toNat (registers.advance parameters operations) := by
  have htotal : (registers.opIndex + operations).toNat =
      registers.opIndex.toNat + operations.toNat := by
    rw [UInt64.toNat_add, Nat.mod_eq_of_lt h]
  have hwidth : parameters.maximumOperations.toUInt64.toNat =
      parameters.maximumOperations.toNat := UInt8.toNat_toUInt64 _
  have hlength : parameters.minimumInstructionLength.toUInt64.toNat =
      parameters.minimumInstructionLength.toNat := UInt8.toNat_toUInt64 _
  constructor
  · simp only [advance, UInt64.toNat_add, UInt64.toNat_mul, UInt64.toNat_div, htotal, hwidth,
      hlength, Nat.add_mod_mod]
  · simp only [advance, UInt64.toNat_mod, htotal, hwidth]

theorem withinInstruction (h : registers.MovedBy parameters first later)
    (hwithin : registers.WithinInstruction parameters) : later.WithinInstruction parameters := by
  unfold WithinInstruction
  rw [h.opIndex]
  exact Nat.mod_lt _ (Nat.zero_lt_of_lt hwithin)

/-- What is left over of the operations counts together with those that follow. -/
theorem trans (hwithin : registers.WithinInstruction parameters)
    (h : registers.MovedBy parameters first later)
    (hnext : later.MovedBy parameters second last) :
    registers.MovedBy parameters (first + second) last := by
  have hpos : 0 < parameters.maximumOperations.toNat := Nat.zero_lt_of_lt hwithin
  have htotal : registers.opIndex.toNat + (first + second) =
      later.opIndex.toNat + second + parameters.maximumOperations.toNat *
        ((registers.opIndex.toNat + first) / parameters.maximumOperations.toNat) := by
    have hparts := Nat.mod_add_div (registers.opIndex.toNat + first)
      parameters.maximumOperations.toNat
    rw [h.opIndex]
    omega
  constructor
  · rw [hnext.address, h.address, htotal, Nat.add_mul_div_left _ _ hpos, Nat.mod_add_mod]
    congr 1
    ring
  · rw [hnext.opIndex, htotal, Nat.add_mul_mod_self_left]

theorem unique {other found : Registers} (h : registers.MovedBy parameters first later)
    (hother : other.MovedBy parameters first found)
    (haddress : other.address = registers.address) (hopIndex : other.opIndex = registers.opIndex) :
    found.address = later.address ∧ found.opIndex = later.opIndex := by
  constructor
  · rw [← UInt64.toNat_inj, h.address, hother.address, haddress, hopIndex]
  · rw [← UInt64.toNat_inj, h.opIndex, hother.opIndex, hopIndex]

end MovedBy
end Registers

namespace MachineState

variable {parameters : Parameters} {state next : MachineState} {row : Option Registers}

/-- An instruction that moves on by operations moves the registers on by those it says, whatever
else it does. -/
theorem movedBy_of_execute {instruction : Instruction} {start finish : ℕ}
    (hmoves : instruction.movesByOperations = true)
    (hwithin : state.registers.WithinInstruction parameters)
    (hfits : state.registers.opIndex.toNat + instruction.operations parameters < 2 ^ 64)
    (h : state.execute parameters start finish instruction = .ok (next, row)) :
    state.registers.MovedBy parameters (instruction.operations parameters) next.registers := by
  have hstays := Registers.MovedBy.stays hwithin
  cases instruction with
  | special opcode =>
    simp only [execute, SpecialOpcode.decode?] at h
    split_ifs at h with hnot
    have hbase : parameters.opcodeBase ≤ opcode := UInt8.not_lt.mp (not_or.mp hnot).1
    have hoperations :
        ((opcode - parameters.opcodeBase) / parameters.lineRange).toUInt64.toNat =
          (Instruction.special opcode).operations parameters := by
      rw [UInt8.toNat_toUInt64, Instruction.operations_special hbase]
    rw [← hoperations] at hfits ⊢
    cases h
    exact (Registers.MovedBy.of_advance hfits).congr rfl rfl
  | advancePc operations =>
    cases h
    exact Registers.MovedBy.of_advance hfits
  | constAddPc =>
    have hoperations : parameters.constantAdvance.toUInt64.toNat =
        Instruction.constAddPc.operations parameters := by
      rw [UInt8.toNat_toUInt64, Instruction.operations_constAddPc]
    rw [← hoperations] at hfits ⊢
    cases h
    exact Registers.MovedBy.of_advance hfits
  | defineFile record =>
    unfold execute at h
    dsimp only at h
    split_ifs at h
    · cases h
      exact hstays
    · obtain ⟨files, -, h⟩ := exists_of_bind_eq_ok h
      cases h
      exact hstays
  | setAddress | fixedAdvancePc | endSequence => cases hmoves
  | _ =>
    cases h
    exact hstays.congr rfl rfl

theorem movedBy_of_step {instruction : Instruction} {c place : Cursor}
    (hread : Instruction.readWhole parameters c = .ok (instruction, place))
    (hmoves : instruction.movesByOperations = true)
    (hwithin : state.registers.WithinInstruction parameters)
    (hfits : state.registers.opIndex.toNat + instruction.operations parameters < 2 ^ 64)
    (h : step parameters state c = (next, .ok (row, place))) :
    state.registers.MovedBy parameters (instruction.operations parameters) next.registers := by
  obtain ⟨decoded, operandsEnd, hdecoded, hexecute, hclose⟩ := (step_eq_ok parameters).mp h
  have hwhole : Instruction.readWhole parameters c = .ok (decoded.instruction, place) :=
    Reader.bind_eq_ok.mpr ⟨_, _, hdecoded, Reader.bind_eq_ok.mpr ⟨_, _, hclose, rfl⟩⟩
  cases hwhole.symm.trans hread
  exact movedBy_of_execute hmoves hwithin hfits hexecute

end MachineState

namespace Registers

open Instruction (totalOperations)

variable {parameters : Parameters}

theorem Executes.movedBy {registers later : Registers} {c d : Cursor}
    {instructions : List Instruction}
    (h : registers.Executes parameters c instructions later d)
    (hmoves : ∀ instruction ∈ instructions, instruction.movesByOperations = true)
    (hwithin : registers.WithinInstruction parameters)
    (hfits : registers.opIndex.toNat + totalOperations parameters instructions < 2 ^ 64) :
    registers.MovedBy parameters (totalOperations parameters instructions) later := by
  induction h with
  | nil registers c => exact MovedBy.stays hwithin
  | @cons registers later c place d instruction instructions state row files hread hstep _ ih =>
    have htotal : totalOperations parameters (instruction :: instructions) =
        instruction.operations parameters + totalOperations parameters instructions :=
      List.sum_cons
    rw [htotal] at hfits ⊢
    have hown : registers.opIndex.toNat + instruction.operations parameters < 2 ^ 64 := by omega
    have hfirst : registers.MovedBy parameters (instruction.operations parameters)
        state.registers :=
      MachineState.movedBy_of_step hread (hmoves _ List.mem_cons_self) hwithin hown hstep
    -- the counter that the first instruction leaves is at most what it would be without the carry
    have hcounter : state.registers.opIndex.toNat ≤
        registers.opIndex.toNat + instruction.operations parameters :=
      hfirst.opIndex ▸ Nat.mod_le _ _
    have hmore := ih (fun other hother => hmoves other (List.mem_cons_of_mem _ hother))
      (hfirst.withinInstruction hwithin) (by omega)
    exact hfirst.trans hwithin hmore

/-- Whatever instructions stand between the advances, the address and the operation counter end
where all operations together lead, and any other run that moves on by as many from the same place
ends there too. -/
theorem advances_add_up {registers later : Registers} {c d : Cursor}
    {instructions : List Instruction}
    (h : registers.Executes parameters c instructions later d)
    (hmoves : ∀ instruction ∈ instructions, instruction.movesByOperations = true)
    (hwithin : registers.opIndex.toNat < parameters.maximumOperations.toNat)
    (hfits : registers.opIndex.toNat + totalOperations parameters instructions < 2 ^ 64) :
    registers.MovedBy parameters (totalOperations parameters instructions) later ∧
      ∀ {other found : Registers} {c d : Cursor} {others : List Instruction},
        other.Executes parameters c others found d →
        (∀ instruction ∈ others, instruction.movesByOperations = true) →
        totalOperations parameters others = totalOperations parameters instructions →
        other.address = registers.address → other.opIndex = registers.opIndex →
        found.address = later.address ∧ found.opIndex = later.opIndex := by
  have hmoved := h.movedBy hmoves hwithin hfits
  refine ⟨hmoved, ?_⟩
  intro other found c d others hother hothers htotal haddress hopIndex
  rw [← hopIndex] at hwithin
  rw [← hopIndex, ← htotal] at hfits
  have hfound := hother.movedBy hothers hwithin hfits
  rw [htotal] at hfound
  exact hmoved.unique hfound haddress hopIndex

/-- A special opcode, an advance by an operand and the constant one, with a column between them, on
a target with three operations in an instruction. The address wraps around. -/
theorem advances_add_up_past_last_address :
    ∃ parameters registers later c d instructions,
      Executes parameters registers c instructions later d ∧
      parameters.maximumOperations = 3 ∧ registers.address = 0xfffffffffffffffc ∧
      registers.opIndex = 1 ∧ totalOperations parameters instructions = 27 ∧
      registers.MovedBy parameters 27 later ∧ later.address = 32 ∧ later.opIndex = 1 := by
  let parameters : Parameters :=
    { order := .little, version := 4, addressSize := 8, minimumInstructionLength := 4
      maximumOperations := 3, defaultIsStmt := true, lineBase := -3, lineRange := 12
      opcodeBase := 13 }
  let registers : Registers := { initial true with address := 0xfffffffffffffffc, opIndex := 1 }
  let files : FileTable := { compDir := "/" }
  have hrun : ∃ later, registers.Executes parameters ⟨0, [41, 5, 9, 2, 5, 8]⟩
      [.special 41, .setColumn 9, .advancePc 5, .constAddPc] later ⟨6, []⟩ :=
    ⟨_, .cons files rfl rfl <| .cons files rfl rfl <| .cons files rfl rfl <|
      .cons files rfl rfl <| .nil _ _⟩
  obtain ⟨later, hrun⟩ := hrun
  have htotal : totalOperations parameters
      [.special 41, .setColumn 9, .advancePc 5, .constAddPc] = 27 := by decide
  obtain ⟨hmoved, -⟩ := advances_add_up hrun (by decide) (by decide) (by decide)
  rw [htotal] at hmoved
  refine ⟨parameters, registers, later, _, _, _, hrun, rfl, rfl, rfl, htotal, hmoved, ?_, ?_⟩
  · rw [← UInt64.toNat_inj, hmoved.address]
    decide
  · rw [← UInt64.toNat_inj, hmoved.opIndex]
    decide

end Registers
end DwarfLines
