import Mathlib
import DwarfLines.Proofs.Machine.Effects
import DwarfLines.Proofs.Table.RewrittenPrograms

/-!
# Short and long forms of instructions

A special opcode is a short form of three standard instructions: one moves on by operations, one by
lines, and one gives the row. The constant advance is a short form of the first of them. Which form
a program uses shows neither in its rows nor in how it ends, although the long forms take more
bytes and every declaration in the program moves.
-/

namespace DwarfLines

/-- A way to write numbers, which may be another one at every place of a program. -/
structure NumberWriting where
  unsigned : ℕ → UInt64 → List UInt8
  signed : ℕ → Int64 → List UInt8
  reads_unsigned : ∀ place n offset, Reader.uleb128.Reads offset (unsigned place n) n
  reads_signed : ∀ place n offset, Reader.sleb128.Reads offset (signed place n) n

namespace NumberWriting

/-- Every number in as few bytes as possible. -/
def shortest : NumberWriting where
  unsigned _ n := Leb128.unsignedBytes n.toNat
  signed _ n := Leb128.signedBytes n.toInt
  reads_unsigned _ n offset := Reader.reads_uleb128 offset n
  reads_signed _ n offset := Reader.reads_sleb128 offset n

variable (writing : NumberWriting) (parameters : Parameters) (place : ℕ)

/-- `DW_LNS_advance_pc` with a number of operations. -/
def advancePc (operations : ℕ) : List UInt8 :=
  StandardOpcode.advancePc.code :: writing.unsigned place (UInt64.ofNat operations)

/-- `DW_LNS_advance_line` with a number of lines. -/
def advanceLine (lines : ℤ) : List UInt8 :=
  StandardOpcode.advanceLine.code :: writing.signed place (Int64.ofInt lines)

/-- The long form of an instruction, if it is a short form, and else the bytes that stand for it. -/
def long (instruction : Instruction) (taken : List UInt8) : List UInt8 :=
  match instruction with
  | .special opcode =>
    writing.advancePc place ((Instruction.special opcode).operations parameters) ++
      (writing.advanceLine place ((Instruction.special opcode).lines parameters) ++
        [StandardOpcode.copy.code])
  | .constAddPc => writing.advancePc place (Instruction.constAddPc.operations parameters)
  | _ => taken

variable {parameters}

open MachineState (RunsTo Faithful)

variable {registers : Registers} (files : FileTable) (rest : List UInt8)

theorem runsTo_advancePc (hbase : 4 ≤ parameters.opcodeBase) (operations offset : ℕ) :
    RunsTo parameters ⟨registers, files⟩ ⟨offset, writing.advancePc place operations ++ rest⟩
      ⟨registers.advance parameters (UInt64.ofNat operations), files⟩ none
      ⟨offset + (writing.advancePc place operations).length, rest⟩ := by
  have hread : Decoded.ReadsAs parameters (.advancePc (UInt64.ofNat operations)) offset
      (writing.advancePc place operations) := by
    apply Decoded.readsAs_standard_of (UInt8.lt_of_lt_of_le (by decide) hbase)
    intro start
    exact (writing.reads_unsigned place _ start).lift.bind_pure _
  exact MachineState.runsTo_of_readsAs hread (fun _ => rfl) rest

theorem runsTo_advanceLine (hbase : 4 ≤ parameters.opcodeBase) (lines : ℤ) (offset : ℕ) :
    RunsTo parameters ⟨registers, files⟩ ⟨offset, writing.advanceLine place lines ++ rest⟩
      ⟨{ registers with line := registers.line + Int64.ofInt lines }, files⟩ none
      ⟨offset + (writing.advanceLine place lines).length, rest⟩ := by
  have hread : Decoded.ReadsAs parameters (.advanceLine (Int64.ofInt lines)) offset
      (writing.advanceLine place lines) := by
    apply Decoded.readsAs_standard_of (UInt8.lt_of_lt_of_le (by decide) hbase)
    intro start
    exact (writing.reads_signed place _ start).lift.bind_pure _
  exact MachineState.runsTo_of_readsAs hread (fun _ => rfl) rest

theorem runsTo_copy (hbase : 4 ≤ parameters.opcodeBase) (offset : ℕ) :
    RunsTo parameters ⟨registers, files⟩ ⟨offset, [StandardOpcode.copy.code] ++ rest⟩
      ⟨registers.clearRowFlags, files⟩ (some registers) ⟨offset + 1, rest⟩ := by
  have hread : Decoded.ReadsAs parameters .copy offset [StandardOpcode.copy.code] := by
    apply Decoded.readsAs_standard_of (UInt8.lt_of_lt_of_le (by decide) hbase)
    intro start
    exact Reader.reads_pure _ _
  exact MachineState.runsTo_of_readsAs hread (fun _ => rfl) rest

theorem toNat_operations (instruction : Instruction) :
    (UInt64.ofNat (instruction.operations parameters)).toNat =
      instruction.operations parameters :=
  UInt64.toNat_ofNat_of_lt' instruction.operations_lt

/-- What is written for a special opcode moves on and gives the row as the opcode does. -/
theorem runsTo_special (hbase : 4 ≤ parameters.opcodeBase) (opcode : UInt8) (offset : ℕ)
    (taken : List UInt8) :
    let bytes := writing.long parameters place (.special opcode) taken
    let moved := (Instruction.special opcode).move parameters registers
    RunsTo parameters ⟨registers, files⟩ ⟨offset, bytes ++ rest⟩ ⟨moved.clearRowFlags, files⟩
      (some moved) ⟨offset + bytes.length, rest⟩ := by
  dsimp only [long]
  rw [Instruction.move_eq_advance (toNat_operations (.special opcode)) rfl]
  generalize (Instruction.special opcode).operations parameters = operations
  generalize (Instruction.special opcode).lines parameters = lines
  rw [List.append_assoc, List.append_assoc, List.length_append, List.length_append,
    ← Nat.add_assoc, ← Nat.add_assoc]
  apply (writing.runsTo_advancePc place files _ hbase operations offset).trans
  apply (writing.runsTo_advanceLine place files _ hbase lines _).trans
  exact runsTo_copy files rest hbase _

theorem runsTo_constAddPc (hbase : 4 ≤ parameters.opcodeBase) (offset : ℕ) (taken : List UInt8) :
    let bytes := writing.long parameters place .constAddPc taken
    RunsTo parameters ⟨registers, files⟩ ⟨offset, bytes ++ rest⟩
      ⟨registers.advance parameters parameters.constantAdvance.toUInt64, files⟩ none
      ⟨offset + bytes.length, rest⟩ := by
  rw [← UInt64.ofNat_uInt8ToNat, Instruction.operations_constAddPc]
  exact writing.runsTo_advancePc place files rest hbase _ offset

/-- The long forms come to the same as the short ones. -/
theorem faithful_long (hbase : 4 ≤ parameters.opcodeBase) (hrange : parameters.lineRange ≠ 0) :
    Faithful parameters (writing.long parameters) := by
  intro registers own next c last row instruction taken hstep hread hpasses hown
  obtain ⟨executed, finish, hsame, hexecute⟩ := MachineState.exists_readWhole_of_step hstep
  cases hsame.symm.trans hread
  cases instruction with
  | special opcode =>
    have hspecial : parameters.opcodeBase ≤ opcode := by
      by_contra hnot
      simp [MachineState.execute, SpecialOpcode.decode?, UInt8.not_le.mp hnot] at hexecute
    rw [Instruction.execute_special hspecial hrange] at hexecute
    cases hexecute
    refine ⟨[], .refl _, fun other start rest hother hfit => ⟨other, .refl _, ?_, ?_⟩⟩
    · exact hother.definedThrough_le.trans (Nat.le_add_right _ _)
    · exact writing.runsTo_special c.offset other rest hbase opcode start taken
  | constAddPc =>
    cases hexecute
    refine ⟨[], .refl _, fun other start rest hother hfit => ⟨other, .refl _, ?_, ?_⟩⟩
    · exact hother.definedThrough_le.trans (Nat.le_add_right _ _)
    · exact writing.runsTo_constAddPc c.offset other rest hbase start taken
  | _ =>
    exact MachineState.faithful_verbatim hstep hread hpasses hown

end NumberWriting

namespace LineTable

variable {order : ByteOrder} {lines : List UInt8} {offset : ℕ} {context : UnitContext}
  {table : LineTable}

/-- The program of a table, in which every short form that a pass executes is written in its long
form. -/
def longProgram (table : LineTable) (writing : NumberWriting) : List UInt8 :=
  table.rewritten (writing.long table.program.header.toParameters)

/-- A unit with the long forms in the place of the short ones gives the same rows and fails if and
only if the unit with the short forms does. The lists must end where the program begins or before,
and the unit must still have a length that its format can write and that an offset can count. -/
theorem rows_of_long_forms (writing : NumberWriting)
    (hparse : parse order lines offset context = .ok table)
    (hends : table.program.tablesEnd ≤ table.program.header.programOffset)
    (hbase : 4 ≤ table.program.header.opcodeBase)
    (hfits : table.program.header.programOffset + (table.longProgram writing).length ≤
      table.program.header.format.lengthSize + table.program.header.format.maxLength)
    (hlength : table.program.header.programOffset + (table.longProgram writing).length < 2 ^ 64)
    (before after : List UInt8) :
    ∃ long, parse order (before ++ table.program.replaced (table.longProgram writing) ++ after)
        before.length context = .ok long ∧
      long.trace.rows = table.trace.rows ∧ (long.trace.fault = none ↔ table.trace.fault = none) := by
  obtain ⟨haccepted, -⟩ := accepted_of_parse hparse
  have hfaithful := writing.faithful_long hbase haccepted.lineRange
  obtain ⟨long, hlong, -, halike⟩ :=
    exists_rewritten hparse hends hfaithful hfits hlength before after
  exact ⟨long, hlong, halike.rows_eq, halike.fault⟩

/-- Two special opcodes and a constant advance around the declaration of a file. -/
theorem rows_of_long_forms_late_file :
    ∃ table long, parse .little
        [46, 0, 0, 0, 2, 0, 16, 0, 0, 0, 1, 1, 253, 12, 10, 0, 1, 1, 1, 1, 0, 0, 0, 1, 0, 0,
          0, 6, 3, 97, 0, 0, 0, 0, 30, 8, 0, 6, 3, 98, 0, 0, 0, 0, 4, 2, 200, 0, 1, 1] 0
        { compDir := "/", name := "u" } = .ok table ∧
      table.longProgram .shortest =
        [0, 6, 3, 97, 0, 0, 0, 0, 2, 1, 3, 5, 1, 2, 20, 0, 6, 3, 98, 0, 0, 0, 0, 4, 2,
          2, 15, 3, 7, 1, 0, 1, 1] ∧
      parse .little ([7] ++ table.program.replaced (table.longProgram .shortest) ++ []) 1
        { compDir := "/", name := "u" } = .ok long ∧
      long.trace.rows = table.trace.rows ∧
      table.trace.rows.map (·.registers.line) = [6, 13, 13] ∧ long.trace.fault = none := by
  have hknown : (parse .little
      [46, 0, 0, 0, 2, 0, 16, 0, 0, 0, 1, 1, 253, 12, 10, 0, 1, 1, 1, 1, 0, 0, 0, 1, 0, 0,
        0, 6, 3, 97, 0, 0, 0, 0, 30, 8, 0, 6, 3, 98, 0, 0, 0, 0, 4, 2, 200, 0, 1, 1] 0
        { compDir := "/", name := "u" }).map
        (fun table => (
          (table.program.tablesEnd, table.program.header.programOffset,
            table.program.header.opcodeBase, table.program.header.format),
          table.longProgram .shortest, table.trace.rows.map (·.registers.line),
          table.trace.fault)) =
      .ok ((26, 26, 10, .dwarf32),
        [0, 6, 3, 97, 0, 0, 0, 0, 2, 1, 3, 5, 1, 2, 20, 0, 6, 3, 98, 0, 0, 0, 0, 4, 2,
          2, 15, 3, 7, 1, 0, 1, 1], [6, 13, 13], none) := by
    decide +kernel
  obtain ⟨table, hparse, hknown⟩ := exists_of_map_eq_ok hknown
  simp only [Prod.mk.injEq] at hknown
  obtain ⟨⟨htables, hprogram, hbase, hformat⟩, hlong, hlines, hfault⟩ := hknown
  obtain ⟨long, hagain, hrows, hends⟩ := rows_of_long_forms .shortest hparse
    (by omega) (by rw [hbase]; decide) (by rw [hprogram, hformat, hlong]; decide)
    (by rw [hprogram, hlong]; decide) [7] []
  exact ⟨table, long, hparse, hlong, hagain, hrows, hlines, hends.mpr hfault⟩

end LineTable
end DwarfLines
