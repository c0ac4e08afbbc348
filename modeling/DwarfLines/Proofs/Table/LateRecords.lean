import Mathlib
import DwarfLines.Proofs.Machine.Declarations
import DwarfLines.Proofs.Machine.Refusals
import DwarfLines.Proofs.Table.Chronicle
import DwarfLines.Proofs.Table.Requests

/-!
# Records that a program declares

Whatever is done with a table, its files are those of the beginning and then what some records
declare, each of which is the operand of an instruction of the program. The instructions of a
program are read from its beginning on, each where the one before it ends. The records include those
of an instruction whose end is refused, because its file stays.
-/

namespace DwarfLines

namespace Instruction

/-- An instruction stands between two places. -/
def Between (parameters : Parameters) (c d : Cursor) : Prop :=
  ∃ instruction, readWhole parameters c = .ok (instruction, d)

/-- A file record that an instruction has, some whole instructions after a place. -/
def DeclaresFrom (parameters : Parameters) (c : Cursor) (record : FileRecord) : Prop :=
  ∃ place decoded last, Relation.ReflTransGen (Between parameters) c place ∧
    Decoded.read parameters place = .ok (decoded, last) ∧
    decoded.instruction = .defineFile record

theorem DeclaresFrom.of_reaches {parameters : Parameters} {c d : Cursor} {record : FileRecord}
    (h : DeclaresFrom parameters d record)
    (hreaches : Relation.ReflTransGen (Between parameters) c d) :
    DeclaresFrom parameters c record := by
  obtain ⟨place, decoded, last, hplace, hread⟩ := h
  exact ⟨place, decoded, last, hreaches.trans hplace, hread⟩

end Instruction

theorem FileTable.grownBy_singleton {table : FileTable} {record : FileRecord} {entry : FileEntry}
    (h : table.entryOf record = .ok entry) (finish : ℕ) :
    GrownBy { table.append entry with definedThrough := finish } table [record] := by
  refine ⟨rfl, rfl, [entry], ?_, rfl⟩
  rw [legacyFiles, List.mapM_cons, h]
  rfl

/-- A file table to which records were added that stand behind a place. Version 5 takes none. -/
structure FileTable.TakesFrom (parameters : Parameters) (c : Cursor) (table grown : FileTable)
    (late : List FileRecord) : Prop where
  grownBy : grown.GrownBy table late
  declared : ∀ record ∈ late, ¬ 5 ≤ parameters.version ∧
    Instruction.DeclaresFrom parameters c record

namespace FileTable.TakesFrom

variable {parameters : Parameters} {c d : Cursor} {first second table grown : FileTable}
  {late more : List FileRecord}

theorem of_agrees (h : grown.Agrees table) : TakesFrom parameters c table grown [] := by
  constructor
  · exact h.grownBy
  · simp

theorem append (hfirst : TakesFrom parameters c table first late)
    (hsecond : TakesFrom parameters c first second more) :
    TakesFrom parameters c table second (late ++ more) := by
  constructor
  · exact hfirst.grownBy.append hsecond.grownBy
  · intro record hrecord
    rcases List.mem_append.mp hrecord with h | h
    · exact hfirst.declared record h
    · exact hsecond.declared record h

theorem of_reaches (h : TakesFrom parameters d table grown late)
    (hreaches : Relation.ReflTransGen (Instruction.Between parameters) c d) :
    TakesFrom parameters c table grown late := by
  constructor
  · exact h.grownBy
  · intro record hrecord
    obtain ⟨hversion, hdeclares⟩ := h.declared record hrecord
    exact ⟨hversion, hdeclares.of_reaches hreaches⟩

theorem agrees_trans (h : TakesFrom parameters c table first late)
    (hagrees : second.Agrees first) : TakesFrom parameters c table second late := by
  constructor
  · exact h.grownBy.agrees_trans hagrees
  · exact h.declared

theorem eq_nil_of_five (h : TakesFrom parameters c table grown late)
    (hversion : 5 ≤ parameters.version) : late = [] := by
  rw [List.eq_nil_iff_forall_not_mem]
  intro record hrecord
  exact (h.declared record hrecord).1 hversion

end FileTable.TakesFrom

namespace MachineState

variable (parameters : Parameters)

theorem step_takes (state : MachineState) (c : Cursor) :
    ∃ late, FileTable.TakesFrom parameters c state.files (step parameters state c).1.files
      late := by
  rcases step_files parameters state c with hsame | ⟨⟨declaration⟩⟩
  · rw [hsame]
    exact ⟨[], .of_agrees (.refl _)⟩
  · have hstep := declaration.step_eq state.registers
    rw [show (⟨state.registers, state.files⟩ : MachineState) = state from rfl] at hstep
    rw [hstep]
    refine ⟨[declaration.record], FileTable.grownBy_singleton declaration.resolved _, ?_⟩
    intro record hrecord
    rw [List.mem_singleton.mp hrecord]
    exact ⟨declaration.legacy, c, _, _, .refl, declaration.read, rfl⟩

variable {parameters} in
theorem between_of_step {state next : MachineState} {c last : Cursor} {row : Option Registers}
    (h : step parameters state c = (next, .ok (row, last))) :
    Instruction.Between parameters c last := by
  obtain ⟨instruction, -, hread, -⟩ := exists_readWhole_of_step h
  exact ⟨instruction, hread⟩

/-- A run adds what the records declare that it comes to. -/
theorem run_takes (state : MachineState) (c : Cursor) :
    ∃ late, FileTable.TakesFrom parameters c state.files (run parameters state c).1.files
      late := by
  fun_induction run parameters state c with
  | case1 state c hend => exact ⟨[], .of_agrees (.refl _)⟩
  | case2 state c hend next e hstep =>
    have hfirst := step_takes parameters state c
    rwa [hstep] at hfirst
  | case3 state c hend next row last hstep =>
    have hfirst := step_takes parameters state c
    rwa [hstep] at hfirst
  | case4 state c hend next last hstep hlt ih =>
    obtain ⟨late, hlate⟩ := step_takes parameters state c
    rw [hstep] at hlate
    obtain ⟨more, hmore⟩ := ih
    exact ⟨late ++ more, hlate.append (hmore.of_reaches (.single (between_of_step hstep)))⟩

variable {parameters} in
theorem reaches_of_run {state next : MachineState} {c last : Cursor} {row : Option Registers}
    (h : run parameters state c = (next, .ok (row, last))) :
    Relation.ReflTransGen (Instruction.Between parameters) c last := by
  fun_induction run parameters state c with
  | case1 state c hend =>
    cases h
    exact .refl
  | case2 state c hend after e hstep => cases h
  | case3 state c hend after shown place hstep =>
    cases h
    exact .single (between_of_step hstep)
  | case4 state c hend after place hstep hlt ih =>
    exact (ih h).head (between_of_step hstep)

end MachineState

def LineProgram.beginning (program : LineProgram) : Cursor :=
  program.cursorAt program.header.programOffset

namespace Pass

variable {program : LineProgram} {pass : Pass}

/-- A pass stands where an instruction of the program begins or the program ends, unless it
failed. -/
def StandsIn (program : LineProgram) (pass : Pass) : Prop :=
  pass.failed = false → Relation.ReflTransGen (Instruction.Between program.header.toParameters)
    program.beginning (program.cursorAt pass.offset)

theorem start_standsIn (program : LineProgram) : (start program).StandsIn program := by
  intro _
  exact .refl

theorem StandsIn.next (h : pass.StandsIn program) (files : FileTable) :
    (next program files pass).pass.StandsIn program := by
  rcases next_outcome program files pass with hsame | ⟨hfailed, -⟩ | ⟨row, hrow, -⟩
  · rw [hsame]
    exact h
  · intro hnot
    rw [hfailed] at hnot
    cases hnot
  · obtain ⟨state, last, hgives⟩ := exists_givesRow hrow
    rw [hgives.next]
    intro _
    exact (h hgives.failed).trans (MachineState.reaches_of_run hgives.run)

theorem StandsIn.next_takes (h : pass.StandsIn program) (files : FileTable) :
    ∃ late, FileTable.TakesFrom program.header.toParameters program.beginning files
      (pass.next program files).files late := by
  rcases next_cases program pass with ⟨after, answer, -, -, -, hnext⟩ | ⟨c, hfailed, hat, -, hnext⟩
  · rw [hnext]
    exact ⟨[], .of_agrees (.refl _)⟩
  · obtain ⟨-, rfl⟩ := Reader.at?_eq_ok.1 hat
    obtain ⟨late, hlate⟩ := MachineState.run_takes program.header.toParameters
      ⟨pass.registers, files⟩ (program.cursorAt pass.offset)
    rw [hnext]
    exact ⟨late, (hlate.of_reaches (h hfailed)).agrees_trans (pass.conclude_files _)⟩

end Pass

namespace LineTable

theorem alone_standsIn (table : LineTable) (count : ℕ) :
    (table.alone count).2.StandsIn table.program := by
  induction count with
  | zero => exact Pass.start_standsIn table.program
  | succ count ih => exact ih.next _

theorem alone_takes (table : LineTable) (count : ℕ) :
    ∃ late, FileTable.TakesFrom table.program.header.toParameters table.program.beginning
      table.files (table.alone count).1 late := by
  induction count with
  | zero => exact ⟨[], .of_agrees (.refl _)⟩
  | succ count ih =>
    obtain ⟨late, hlate⟩ := ih
    obtain ⟨more, hmore⟩ := (table.alone_standsIn count).next_takes (table.alone count).1
    exact ⟨late ++ more, hlate.append hmore⟩

end LineTable

/-- Whatever was done in a session, the table has the files of the beginning and what records of the
program declare. -/
theorem Session.exists_takes {table current : LineTable} {operations : List Operation}
    (h : ((ofTable table).performAll operations).shared = some current) :
    ∃ late, FileTable.TakesFrom table.program.header.toParameters table.program.beginning
      table.files current.files late := by
  obtain ⟨reached, hextends⟩ := exists_extends h
  obtain ⟨late, hlate⟩ := table.alone_takes reached
  exact ⟨late, hlate.agrees_trans hextends.files⟩

end DwarfLines
