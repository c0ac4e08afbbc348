import Mathlib
import DwarfLines.Proofs.Header.Fields
import DwarfLines.Proofs.Machine.RestingRegisters
import DwarfLines.Proofs.Table.Chronicle
import DwarfLines.Proofs.Table.Requests

/-!
# Passes between two requests

A pass that has not failed stands between two rows, so its registers are at rest, whatever other
passes do to the table. The row it is given comes of one instruction. Only where that is the end of
a sequence does the row show it, and the pass is then left with the registers of the beginning.
-/

namespace DwarfLines

namespace Pass

/-- Whether the registers of a pass are at rest, unless it failed. -/
def Rests (program : LineProgram) (pass : Pass) : Prop :=
  pass.failed = false → pass.registers.Resting program.header.toParameters

/-- A row given to a pass that stood at an offset, and the pass after it. The row comes of the
first instruction from the offset on that gives one. -/
structure RowRests (program : LineProgram) (offset : ℕ) (row : Row) (after : Pass) : Prop where
  instruction : ∃ instruction,
    Instruction.GivesNextRow program.header.toParameters (program.cursorAt offset) instruction
      (program.cursorAt after.offset) ∧
    (row.registers.endSequence = true ↔ instruction = .endSequence)
  initial : row.registers.endSequence = true →
    after.registers = .initial program.header.defaultIsStmt
  resting : after.registers.Resting program.header.toParameters

variable {program : LineProgram} {files : FileTable} {pass : Pass} {row : Row}

theorem start_rests (haccepted : program.Accepted) : (start program).Rests program := by
  intro _
  exact Registers.initial_resting haccepted.maximumOperations _

theorem GivesRow.rowRests {state : MachineState} {last : ℕ}
    (h : GivesRow program files pass row state last) (haccepted : program.Accepted)
    (hrests : pass.Rests program) :
    RowRests program pass.offset row { registers := state.registers, offset := last } := by
  have hrunning := (hrests h.failed).toRunning
  obtain ⟨instruction, hgives, hends, hinitial, hresting⟩ :=
    MachineState.run_rests haccepted.maximumOperations haccepted.lineRange hrunning h.run
  constructor
  case instruction => exact ⟨instruction, hgives, hends⟩
  case initial => exact hinitial
  case resting => exact hresting

theorem rowRests_of_next (haccepted : program.Accepted) (hrests : pass.Rests program)
    (h : (next program files pass).answer = some (.ok row)) :
    RowRests program pass.offset row (next program files pass).pass := by
  obtain ⟨state, last, hgives⟩ := exists_givesRow h
  rw [hgives.next]
  exact hgives.rowRests haccepted hrests

/-- A request leaves a pass at rest, or failed. -/
theorem next_rests (haccepted : program.Accepted) (hrests : pass.Rests program)
    (files : FileTable) : (next program files pass).pass.Rests program := by
  rcases next_outcome program files pass with hsame | ⟨hfailed, -⟩ | ⟨row, hrow, -⟩
  · rw [hsame]
    exact hrests
  · intro hnot
    rw [hfailed] at hnot
    cases hnot
  · intro _
    exact (rowRests_of_next haccepted hrests hrow).resting

theorem trace_rests (haccepted : program.Accepted) (hrests : pass.Rests program) :
    ∀ moment ∈ (pass.trace program files).moments,
      ∃ offset, RowRests program offset moment.row moment.pass := by
  intro moment hmoment
  fun_induction Pass.trace program files pass with
  | case1 => cases hmoment
  | case2 => cases hmoment
  | case3 files pass advance row hanswer hoffset rest ih =>
    rcases List.mem_cons.mp hmoment with rfl | hmem
    · exact ⟨pass.offset, rowRests_of_next haccepted hrests hanswer⟩
    · exact ih (next_rests haccepted hrests files) hmem

end Pass

namespace LineTable

variable {order : ByteOrder} {lines : List UInt8} {offset : ℕ} {context : UnitContext}
  {table : LineTable}

theorem alone_rests (haccepted : table.program.Accepted) (count : ℕ) :
    (table.alone count).2.Rests table.program := by
  induction count with
  | zero => exact Pass.start_rests haccepted
  | succ count ih => exact Pass.next_rests haccepted ih _

/-- Before version 4 an instruction of the target has one operation. -/
theorem maximumOperations_of_parse (h : parse order lines offset context = .ok table)
    (hversion : table.program.header.version < 4) :
    table.program.header.maximumOperations = 1 := by
  obtain ⟨layout, -, hlayout, -⟩ := exists_explains_of_parse h
  rw [hlayout.version] at hversion
  rw [hlayout.parameters, UnitLayout.parameters, if_pos hversion]

end LineTable

/-- Whatever was done in a session, a pass that has not failed is at rest, and where it is given a
row, the row comes of one instruction and the pass is at rest again, with the registers of the
beginning after the end of a sequence. The same holds along each trace. -/
theorem Session.passes_rest {order : ByteOrder} {lines : List UInt8} {offset : ℕ}
    {context : UnitContext} {table : LineTable}
    (hparse : LineTable.parse order lines offset context = .ok table)
    (operations : List Operation) :
    let session := (ofTable table).performAll operations
    (∀ id pass, session.pass? id = some pass → pass.failed = false →
      pass.registers.Resting table.program.header.toParameters ∧
      (table.program.header.version < 4 → pass.registers.opIndex = 0) ∧
      ∀ current, session.shared = some current →
        ∀ row, (pass.next current.program current.files).answer = some (.ok row) →
          Pass.RowRests table.program pass.offset row
            (pass.next current.program current.files).pass) ∧
    ∀ operation trace, (session.perform operation).2 = .drained trace →
      ∀ moment ∈ trace.moments,
        ∃ offset, Pass.RowRests table.program offset moment.row moment.pass := by
  obtain ⟨haccepted, -⟩ := LineTable.accepted_of_parse hparse
  intro session
  have hrests {id : ℕ} {pass : Pass} (hpass : session.pass? id = some pass) :
      pass.Rests table.program := by
    obtain ⟨count, rfl⟩ := exists_place hpass
    exact LineTable.alone_rests haccepted count
  constructor
  · intro id pass hpass hfailed
    have hresting := hrests hpass hfailed
    refine ⟨hresting, ?_, ?_⟩
    · intro hversion
      exact hresting.opIndex_eq_zero (LineTable.maximumOperations_of_parse hparse hversion)
    · intro current hcurrent row hrow
      rw [program_eq hcurrent] at hrow ⊢
      exact Pass.rowRests_of_next haccepted (hrests hpass) hrow
  · intro operation trace htrace moment hmoment
    have hperforms := session.performs operation
    rw [htrace] at hperforms
    generalize (session.perform operation).1 = after at hperforms
    cases hperforms with
    | rows hshared =>
      rw [LineTable.trace, program_eq hshared] at hmoment
      exact Pass.trace_rests haccepted (Pass.start_rests haccepted) moment hmoment
    | drain id hshared hpass =>
      rw [program_eq hshared] at hmoment
      exact Pass.trace_rests haccepted (hrests hpass) moment hmoment

/-- Flags set before a row and before the end of a sequence, with four operations in an instruction
of the target. -/
theorem Session.passes_rest_at_end_of_sequence :
    ∃ table pass current row, LineTable.parse .little
        [40, 0, 0, 0, 4, 0, 25, 0, 0, 0, 1, 4, 1, 251, 14, 13, 0, 1, 1, 1, 1, 0, 0, 0, 1, 0, 0, 1,
          0, 97, 0, 0, 0, 0, 0, 7, 10, 2, 5, 1, 11, 0, 1, 1] 0
        { addressSize := 4, compDir := "/", name := "u" } = .ok table ∧
      let session := (ofTable table).performAll [.start 0, .next 0]
      session.pass? 0 = some pass ∧ session.shared = some current ∧
      pass.registers.opIndex = 1 ∧ pass.registers.Resting table.program.header.toParameters ∧
      (pass.next current.program current.files).answer = some (.ok row) ∧
      row.registers.epilogueBegin = true ∧ row.registers.endSequence = true ∧
      (pass.next current.program current.files).pass.registers =
        .initial table.program.header.defaultIsStmt := by
  have hknown : (LineTable.parse .little
        [40, 0, 0, 0, 4, 0, 25, 0, 0, 0, 1, 4, 1, 251, 14, 13, 0, 1, 1, 1, 1, 0, 0, 0, 1, 0, 0, 1,
          0, 97, 0, 0, 0, 0, 0, 7, 10, 2, 5, 1, 11, 0, 1, 1] 0
        { addressSize := 4, compDir := "/", name := "u" }).map (fun table =>
      let session := (ofTable table).performAll [.start 0, .next 0]
      decide ((session.pass? 0).map (fun pass => (pass.failed, pass.registers.opIndex)) =
          some (false, 1) ∧
        ((session.pass? 0).bind fun pass => session.shared.bind fun current =>
          (pass.next current.program current.files).answer.map (·.map fun row =>
            (row.registers.epilogueBegin, row.registers.endSequence))) =
          some (.ok (true, true)))) = .ok true := by
    decide +kernel
  obtain ⟨table, hparse, hfacts⟩ := exists_of_map_eq_ok hknown
  obtain ⟨hpass, hanswer⟩ := of_decide_eq_true hfacts
  obtain ⟨pass, hpass, hplace⟩ := Option.map_eq_some_iff.mp hpass
  rw [hpass, Option.bind_some] at hanswer
  obtain ⟨current, hcurrent, hanswer⟩ := Option.bind_eq_some_iff.mp hanswer
  obtain ⟨answer, hanswer, hrow⟩ := Option.map_eq_some_iff.mp hanswer
  obtain ⟨row, rfl, hflags⟩ := exists_of_map_eq_ok hrow
  simp only [Prod.mk.injEq] at hplace hflags
  obtain ⟨hpasses, -⟩ := passes_rest hparse [.start 0, .next 0]
  obtain ⟨hresting, -, hgives⟩ := hpasses 0 pass hpass hplace.1
  have hrests := hgives current hcurrent row hanswer
  exact ⟨table, pass, current, row, hparse, hpass, hcurrent, hplace.2, hresting, hanswer,
    hflags.1, hflags.2, hrests.initial hflags.2⟩

end DwarfLines
