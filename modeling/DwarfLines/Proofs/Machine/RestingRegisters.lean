import Mathlib
import DwarfLines.Proofs.Machine.Checking
import DwarfLines.Proofs.Machine.Declarations
import DwarfLines.Proofs.Machine.Effects

/-!
# Registers between two rows

Some instructions set a flag that describes the next row only. Between two instructions such a
flag may be set, and what holds is that the operation counter points into one instruction of the
target and that no end of a sequence is shown. The instruction that gives the row clears the
flags, so between two rows the registers are at rest: the flags are down and the discriminator is
zero. Only the end of a sequence shows itself in its row, and it leaves the registers as every
program finds them.
-/

namespace DwarfLines

namespace Registers

/-- What every instruction keeps. -/
structure Running (parameters : Parameters) (registers : Registers) : Prop where
  withinInstruction : registers.WithinInstruction parameters
  endSequence : registers.endSequence = false

/-- Registers as they are between two rows. -/
structure Resting (parameters : Parameters) (registers : Registers) : Prop
    extends Running parameters registers where
  basicBlock : registers.basicBlock = false
  prologueEnd : registers.prologueEnd = false
  epilogueBegin : registers.epilogueBegin = false
  discriminator : registers.discriminator = 0

variable {parameters : Parameters}

theorem initial_resting (hwidth : parameters.maximumOperations ≠ 0) (defaultIsStmt : Bool) :
    (initial defaultIsStmt).Resting parameters := by
  constructor
  case toRunning => exact ⟨initial_withinInstruction hwidth defaultIsStmt, rfl⟩
  all_goals rfl

/-- Where an instruction of the target has one operation, the counter stays at zero. -/
theorem Running.opIndex_eq_zero {registers : Registers} (h : registers.Running parameters)
    (hone : parameters.maximumOperations = 1) : registers.opIndex = 0 := by
  have hlt := h.withinInstruction
  rw [WithinInstruction, hone] at hlt
  rw [← UInt64.toNat_inj]
  exact Nat.lt_one_iff.mp hlt

end Registers

namespace Instruction

variable {parameters : Parameters} {registers : Registers}

theorem isSome_row? (instruction : Instruction) :
    (instruction.row? parameters registers).isSome = instruction.givesRow := by
  cases h : instruction.givesRow <;> simp [row?, h]

variable (parameters) in
theorem shown_endSequence (h : registers.endSequence = false) (instruction : Instruction) :
    (instruction.shown parameters registers).endSequence = true ↔
      instruction = endSequence := by
  cases instruction with
  | endSequence => simp [shown]
  | _ => simp [shown, move, h]

theorem left_endSequence (h : registers.endSequence = false) (instruction : Instruction) :
    (instruction.left parameters registers).endSequence = false := by
  cases instruction with
  | endSequence => rfl
  | _ => exact h

theorem left_running (hwidth : parameters.maximumOperations ≠ 0)
    (h : registers.Running parameters) (instruction : Instruction) :
    (instruction.left parameters registers).Running parameters := by
  constructor
  · exact left_withinInstruction hwidth h.withinInstruction instruction
  · exact left_endSequence h.endSequence instruction

/-- Whatever flags were set, they are cleared with the row. -/
theorem left_resting (hwidth : parameters.maximumOperations ≠ 0)
    (h : registers.Running parameters) {instruction : Instruction}
    (hrow : instruction.givesRow = true) :
    (instruction.left parameters registers).Resting parameters := by
  have hrunning := left_running hwidth h instruction
  cases instruction with
  | special opcode => exact ⟨hrunning, rfl, rfl, rfl, rfl⟩
  | copy => exact ⟨hrunning, rfl, rfl, rfl, rfl⟩
  | endSequence => exact Registers.initial_resting hwidth _
  | _ => cases hrow

/-- A place from which instructions are read that give no row, then the given one, which gives a
row, and where the next instruction is read after it. -/
structure GivesNextRow (parameters : Parameters) (c : Cursor) (instruction : Instruction)
    (last : Cursor) : Prop where
  reads : ∃ silent, listFrom parameters c = silent ++ instruction :: listFrom parameters last ∧
    ∀ other ∈ silent, other.givesRow = false
  givesRow : instruction.givesRow = true

theorem GivesNextRow.cons {c place last : Cursor} {first instruction : Instruction}
    (h : GivesNextRow parameters place instruction last)
    (hread : readWhole parameters c = .ok (first, place)) (hsilent : first.givesRow = false) :
    GivesNextRow parameters c instruction last := by
  obtain ⟨silent, hlist, hall⟩ := h.reads
  refine ⟨⟨first :: silent, ?_, ?_⟩, h.givesRow⟩
  · rw [listFrom_of_ok hread, hlist, List.cons_append]
  · intro other hother
    rcases List.mem_cons.mp hother with rfl | hmem
    · exact hsilent
    · exact hall other hmem

end Instruction

namespace MachineState

variable {parameters : Parameters} {state next : MachineState} {c last : Cursor}

/-- What is executed leaves the registers and gives the row that the instruction says, whether it
declares a file or not. -/
theorem execute_effect {instruction : Instruction} {start finish : ℕ} {row : Option Registers}
    (hspecial : ∀ opcode, instruction = .special opcode → parameters.opcodeBase ≤ opcode)
    (hrange : parameters.lineRange ≠ 0)
    (hwithin : state.registers.WithinInstruction parameters)
    (h : state.execute parameters start finish instruction = .ok (next, row)) :
    next.registers = instruction.left parameters state.registers ∧
      row = instruction.row? parameters state.registers := by
  cases hdeclared : instruction.declared? parameters with
  | none =>
    have heffect := Instruction.execute_eq hspecial hrange hwithin hdeclared state.files
      start finish
    cases heffect.symm.trans h
    exact ⟨rfl, rfl⟩
  | some record =>
    obtain ⟨rfl, -⟩ := Instruction.declared_eq_some hdeclared
    rw [execute_declared parameters hdeclared] at h
    obtain ⟨files, -, hnext⟩ := exists_of_map_eq_ok h
    cases hnext
    exact ⟨rfl, rfl⟩

theorem step_effect {row : Option Registers} (hrange : parameters.lineRange ≠ 0)
    (hwithin : state.registers.WithinInstruction parameters)
    (h : step parameters state c = (next, .ok (row, last))) :
    ∃ instruction, Instruction.readWhole parameters c = .ok (instruction, last) ∧
      next.registers = instruction.left parameters state.registers ∧
      row = instruction.row? parameters state.registers := by
  obtain ⟨decoded, operandsEnd, hread, hexecute, hclose⟩ := (step_eq_ok parameters).mp h
  have hspecial := Decoded.gives_read hread
  have hwhole : Instruction.readWhole parameters c = .ok (decoded.instruction, last) :=
    Reader.bind_eq_ok.mpr ⟨_, _, hread, Reader.bind_eq_ok.mpr ⟨_, _, hclose, rfl⟩⟩
  exact ⟨decoded.instruction, hwhole, execute_effect hspecial hrange hwithin hexecute⟩

/-- A run that gives a row goes through instructions up to the first that gives one. It shows the
end of a sequence only if that is what this instruction is, and the registers are at rest after
it. -/
theorem run_rests (hwidth : parameters.maximumOperations ≠ 0)
    (hrange : parameters.lineRange ≠ 0) (hrunning : state.registers.Running parameters)
    {shown : Registers} (h : run parameters state c = (next, .ok (some shown, last))) :
    ∃ instruction, Instruction.GivesNextRow parameters c instruction last ∧
      (shown.endSequence = true ↔ instruction = .endSequence) ∧
      (shown.endSequence = true → next.registers = .initial parameters.defaultIsStmt) ∧
      next.registers.Resting parameters := by
  fun_induction run parameters state c with
  | case1 state c hend => cases h
  | case2 state c hend after e hstep => cases h
  | case3 state c hend after row place hstep =>
    cases h
    obtain ⟨instruction, hread, hleft, hrow⟩ :=
      step_effect hrange hrunning.withinInstruction hstep
    have hgives : instruction.givesRow = true := by
      rw [← instruction.isSome_row?, ← hrow]
      rfl
    rw [(Instruction.effect_of_row hgives).1, Option.some.injEq] at hrow
    have hends := instruction.shown_endSequence parameters hrunning.endSequence
    rw [hleft, hrow]
    refine ⟨instruction, ⟨⟨[], Instruction.listFrom_of_ok hread, ?_⟩, hgives⟩, hends, ?_, ?_⟩
    · simp
    · intro hshown
      rw [hends.mp hshown]
      rfl
    · exact Instruction.left_resting hwidth hrunning hgives
  | case4 state c hend after place hstep hlt ih =>
    obtain ⟨first, hread, hleft, hrow⟩ := step_effect hrange hrunning.withinInstruction hstep
    have hsilent : first.givesRow = false := by
      rw [← first.isSome_row?, ← hrow]
      rfl
    have hafter : after.registers.Running parameters :=
      hleft ▸ Instruction.left_running hwidth hrunning first
    obtain ⟨instruction, hgives, hmore⟩ := ih hafter h
    exact ⟨instruction, hgives.cons hread hsilent, hmore⟩

end MachineState
end DwarfLines
