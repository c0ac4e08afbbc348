import Mathlib
import DwarfLines.Proofs.Files.Checking
import DwarfLines.Proofs.Machine.Effects

/-!
# Running instructions, checked

Moving on divides by the operations of an instruction, and the constant advance divides by the line
range. A run of a program aborts only if one of them is zero. An instruction is only taken for a
special one if its opcode is not below the opcode base, and its declared end is only moved to if it
was not passed, so no run ends in an error for anything else.
-/

namespace DwarfLines

open CheckedReader (Checks checks_lift checks_pure)

/-- What the machine divides by is not zero. -/
structure Parameters.DividesSafely (parameters : Parameters) : Prop where
  maximumOperations : parameters.maximumOperations ≠ 0
  lineRange : parameters.lineRange ≠ 0

def Registers.advance? (parameters : Parameters) (registers : Registers) (operations : UInt64) :
    Option Registers := do
  let total := registers.opIndex + operations
  let width := parameters.maximumOperations.toUInt64
  let whole ← quotient? total width
  let rest ← remainder? total width
  return { registers with
    address := registers.address + parameters.minimumInstructionLength.toUInt64 * whole
    opIndex := rest }

/-- The operations of the constant advance; the difference and the division are checked. -/
def Parameters.constantAdvance? (parameters : Parameters) : Option UInt8 := do
  let last ← difference? 255 parameters.opcodeBase
  quotient? last parameters.lineRange

def Decoded.close? (decoded : Decoded) : CheckedReader Unit := do
  match decoded.declaredEnd with
  | none => return
  | some declared =>
    let place ← (Reader.offset : Reader LineError ℕ)
    if declared.offset < place then
      (Reader.reject (.extendedOverrun declared.opcode) : Reader LineError Unit)
    else
      CheckedReader.seek declared.offset

variable {parameters : Parameters}

theorem Registers.comesTo_advance? (registers : Registers) (operations : UInt64) :
    ComesTo parameters.DividesSafely (registers.advance? parameters operations)
      (registers.advance parameters operations) := by
  have hwidth (h : parameters.DividesSafely) : parameters.maximumOperations.toUInt64 ≠ 0 := by
    intro hzero
    apply h.maximumOperations
    rw [← UInt8.toNat_inj, ← UInt8.toNat_toUInt64, hzero]
    rfl
  unfold advance?
  apply (comesTo_quotient? _ hwidth).bind
  apply (comesTo_remainder? _ hwidth).bind
  exact comesTo_some _

theorem Parameters.comesTo_constantAdvance? :
    ComesTo parameters.DividesSafely parameters.constantAdvance? parameters.constantAdvance := by
  have hbase : parameters.opcodeBase ≤ 255 :=
    UInt8.le_iff_toNat_le.mpr (Nat.le_of_lt_succ (UInt8.toNat_lt _))
  unfold constantAdvance?
  rw [difference?_of_le hbase]
  exact comesTo_quotient? _ fun h => h.lineRange

theorem Decoded.checks_close? (decoded : Decoded) : decoded.close?.Checks decoded.close := by
  unfold close? close
  cases decoded.declaredEnd with
  | none => exact checks_pure _
  | some declared =>
    apply (checks_lift Reader.offset).bind
    intro place
    split_ifs
    · exact checks_lift _
    · exact CheckedReader.checks_seek _

namespace MachineState

variable (parameters)

def execute? (state : MachineState) (start finish : ℕ) (instruction : Instruction) :
    Option (Except LineError (MachineState × Option Registers)) :=
  let registers := state.registers
  match instruction with
  | .special opcode =>
    match SpecialOpcode.decode? opcode parameters.opcodeBase parameters.lineBase
        parameters.lineRange with
    | none => some (.error (.format (.badSpecialOpcode opcode)))
    | some effect => do
      let moved ← registers.advance? parameters effect.operationAdvance.toUInt64
      return .ok (state.emit { moved with line := moved.line + effect.lineIncrement })
  | .advancePc operations => do
    let moved ← registers.advance? parameters operations
    return .ok (state.withRegisters moved, none)
  | .constAddPc => do
    let operations ← parameters.constantAdvance?
    let moved ← registers.advance? parameters operations.toUInt64
    return .ok (state.withRegisters moved, none)
  | _ => some (state.execute parameters start finish instruction)

def step? (state : MachineState) (c : Cursor) :
    Option (MachineState × Except LineError (Option Registers × Cursor)) :=
  match Decoded.read parameters c with
  | .error e => some (state, .error e)
  | .ok (decoded, operandsEnd) => do
    match ← state.execute? parameters c.offset operandsEnd.offset decoded.instruction with
    | .error e => return (state, .error e)
    | .ok (next, row) =>
      match ← (decoded.close? operandsEnd).run with
      | .error e => return (next, .error e)
      | .ok ((), last) => return (next, .ok (row, last))

variable {parameters}

theorem comesTo_execute? (state : MachineState) (start finish : ℕ) (instruction : Instruction) :
    ComesTo parameters.DividesSafely (state.execute? parameters start finish instruction)
      (state.execute parameters start finish instruction) := by
  cases instruction with
  | special opcode =>
    unfold execute? execute
    dsimp only
    cases SpecialOpcode.decode? opcode parameters.opcodeBase parameters.lineBase
        parameters.lineRange with
    | none => exact comesTo_some _
    | some effect => exact (state.registers.comesTo_advance? _).bind (comesTo_some _)
  | advancePc operations => exact (state.registers.comesTo_advance? _).bind (comesTo_some _)
  | constAddPc =>
    apply Parameters.comesTo_constantAdvance?.bind
    exact (state.registers.comesTo_advance? _).bind (comesTo_some _)
  | _ => exact comesTo_some _

theorem comesTo_step? (state : MachineState) (c : Cursor) :
    ComesTo parameters.DividesSafely (state.step? parameters c) (state.step parameters c) := by
  unfold step? step
  cases Decoded.read parameters c with
  | error e => exact comesTo_some _
  | ok result =>
    obtain ⟨decoded, operandsEnd⟩ := result
    dsimp only
    apply (state.comesTo_execute? c.offset operandsEnd.offset decoded.instruction).bind
    cases state.execute parameters c.offset operandsEnd.offset decoded.instruction with
    | error e => exact comesTo_some _
    | ok result =>
      obtain ⟨next, row⟩ := result
      dsimp only
      rw [decoded.checks_close? operandsEnd]
      cases decoded.close operandsEnd with
      | error e => exact comesTo_some _
      | ok result => exact comesTo_some _

end MachineState

def MachineState.run? (parameters : Parameters) (state : MachineState) (c : Cursor) :
    Option (MachineState × Except LineError (Option Registers × Cursor)) :=
  if c.atEnd then
    some (state, .ok (none, c))
  else
    match h : state.step? parameters c with
    | none => none
    | some (next, .error e) => some (next, .error e)
    | some (next, .ok (some row, last)) => some (next, .ok (some row, last))
    | some (next, .ok (none, last)) =>
      have := Cursor.length_lt (step_lt parameters state ((comesTo_step? state c).eq _ h).symm)
      run? parameters next last
termination_by c.rest.length

namespace MachineState

theorem comesTo_run? (state : MachineState) (c : Cursor) :
    ComesTo parameters.DividesSafely (run? parameters state c) (run parameters state c) := by
  fun_induction run? parameters state c with
  | case1 state c hend =>
    rw [run_of_atEnd hend]
    exact comesTo_some _
  | case2 state c hend hstep =>
    exact (comesTo_step? state c).of_none hstep _
  | case3 state c hend next e hstep =>
    have hown := ((comesTo_step? state c).eq _ hstep).symm
    rw [run_of_error (by simpa using hend) hown]
    exact comesTo_some _
  | case4 state c hend next row last hstep =>
    have hown := ((comesTo_step? state c).eq _ hstep).symm
    rw [run_of_row (by simpa using hend) hown]
    exact comesTo_some _
  | case5 state c hend next last hstep hlt ih =>
    have hown := ((comesTo_step? state c).eq _ hstep).symm
    rw [run_of_silent (by simpa using hend) hown]
    exact ih

end MachineState

/-! ### Errors of a run -/

namespace Instruction

theorem external_readStandard (opcode : UInt8) : (readStandard parameters opcode).External := by
  unfold readStandard
  split
  all_goals first
    | exact Reader.external_pure _
    | exact (Reader.external_lift _).bind_pure _
    | exact Reader.external_reject rfl

theorem external_readExtended (opcode : UInt8) : (readExtended parameters opcode).External := by
  unfold readExtended
  split
  · exact Reader.external_pure _
  · exact (Reader.external_lift _).bind_pure _
  · exact (Reader.external_lift _).bind_pure _
  · exact (Reader.external_lift _).bind_pure _
  · split_ifs
    · exact Reader.external_reject rfl
    · exact fun _ => external_error rfl

theorem gives_readStandard (opcode : UInt8) : (readStandard parameters opcode).Gives
    fun instruction => ∀ other, instruction ≠ .special other := by
  unfold readStandard
  split
  all_goals first
    | exact Reader.gives_pure nofun
    | exact Reader.gives_bind fun _ => Reader.gives_pure nofun
    | exact Reader.gives_reject _

theorem gives_readExtended (opcode : UInt8) : (readExtended parameters opcode).Gives
    fun instruction => ∀ other, instruction ≠ .special other := by
  unfold readExtended
  split
  · exact Reader.gives_pure nofun
  · exact Reader.gives_bind fun _ => Reader.gives_pure nofun
  · exact Reader.gives_bind fun _ => Reader.gives_pure nofun
  · exact Reader.gives_bind fun _ => Reader.gives_pure nofun
  · split_ifs
    · exact Reader.gives_reject _
    · exact nofun

end Instruction

namespace Decoded

theorem external_read : (read parameters).External := by
  apply (Reader.external_lift _).bind
  intro opcode
  split_ifs
  · exact Reader.external_pure _
  · apply (Reader.external_lift _).bind
    intro length
    apply Reader.external_offset.bind
    intro place
    dsimp only
    split_ifs
    · apply (Reader.external_lift _).bind
      intro extended
      exact (Instruction.external_readExtended _).bind_pure _
    · exact Reader.external_reject rfl
  · exact (Instruction.external_readStandard _).bind_pure _

/-- Only an opcode from the opcode base on is taken for a special one. -/
theorem gives_read : (read parameters).Gives fun decoded =>
    ∀ opcode, decoded.instruction = .special opcode → parameters.opcodeBase ≤ opcode := by
  apply Reader.gives_bind
  intro opcode
  split_ifs with hspecial
  · apply Reader.gives_pure
    intro other hother
    cases hother
    exact hspecial
  · apply Reader.gives_bind
    intro length
    apply Reader.gives_bind
    intro place
    dsimp only
    split_ifs
    · apply Reader.gives_bind
      intro extended
      refine (Instruction.gives_readExtended extended).bind fun instruction hnot =>
        Reader.gives_pure ?_
      intro other hother
      exact absurd hother (hnot other)
    · exact Reader.gives_reject _
  · refine (Instruction.gives_readStandard opcode).bind fun instruction hnot =>
      Reader.gives_pure ?_
    intro other hother
    exact absurd hother (hnot other)

/-- The end of an instruction is moved to only if it was not passed. -/
theorem external_close (decoded : Decoded) : decoded.close.External := by
  unfold close
  cases decoded.declaredEnd with
  | none => exact Reader.external_pure _
  | some declared =>
    intro c
    dsimp only
    rw [Reader.bind_apply]
    change External ((if declared.offset < c.offset then
      (Reader.reject (.extendedOverrun declared.opcode) : Reader LineError Unit)
      else Reader.seek declared.offset) c)
    split_ifs with hpassed
    · exact external_error rfl
    · change External ((if declared.offset < c.offset then
        (Reader.reject (.backwardSeek c.offset declared.offset) : Reader LineError Unit)
        else Reader.skip (declared.offset - c.offset)) c)
      rw [if_neg hpassed]
      exact external_ofRead _

end Decoded

namespace MachineState

theorem external_execute (hrange : parameters.lineRange ≠ 0) (state : MachineState)
    (start finish : ℕ) {instruction : Instruction}
    (h : ∀ opcode, instruction = .special opcode → parameters.opcodeBase ≤ opcode) :
    External (state.execute parameters start finish instruction) := by
  obtain ⟨registers, files⟩ := state
  cases instruction with
  | special opcode =>
    rw [Instruction.execute_special (h opcode rfl) hrange]
    exact external_ok _
  | defineFile record =>
    unfold execute
    dsimp only
    split_ifs
    · exact external_ok _
    · exact (files.external_define start finish record).bind fun _ => external_ok _
  | _ => exact external_ok _

theorem external_step (hrange : parameters.lineRange ≠ 0) (state : MachineState) (c : Cursor) :
    External (state.step parameters c).2 := by
  unfold step
  cases hread : Decoded.read parameters c with
  | error e => exact external_error (Decoded.external_read c e hread)
  | ok result =>
    obtain ⟨decoded, operandsEnd⟩ := result
    have hexecute := external_execute hrange state c.offset operandsEnd.offset
      (Decoded.gives_read hread)
    dsimp only
    cases hexecuted : state.execute parameters c.offset operandsEnd.offset decoded.instruction with
    | error e => exact external_error (hexecute e hexecuted)
    | ok result =>
      cases hclose : decoded.close operandsEnd with
      | error e => exact external_error (decoded.external_close operandsEnd e hclose)
      | ok result => exact external_ok _

/-- No run of a program ends in an internal error. -/
theorem external_run (hrange : parameters.lineRange ≠ 0) (state : MachineState) (c : Cursor) :
    External (state.run parameters c).2 := by
  fun_induction run parameters state c with
  | case1 => exact external_ok _
  | case2 state c hend next e hstep =>
    have hexternal := external_step hrange state c
    rw [hstep] at hexternal
    exact hexternal
  | case3 => exact external_ok _
  | case4 state c hend next last hstep hlt ih => exact ih

end MachineState

end DwarfLines
