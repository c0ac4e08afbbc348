import Mathlib
import DwarfLines.Proofs.Files.Paths
import DwarfLines.Proofs.Header.Acceptance
import DwarfLines.Proofs.Machine.Decoding
import DwarfLines.Proofs.Machine.Effects
import DwarfLines.Proofs.Table.LonePass

/-!
# The trace of a written program

A pass over a written program gives the rows that the program means and ends as it means. The
induction is on the list of instructions and follows a pass in the middle of a request: either it
waits for a row, and then what is left of the request decides how the trace goes on, or it was just
given one. Declarations stay behind the place of the pass, so none of them is taken for one that was
met before.
-/

namespace DwarfLines

theorem Instruction.declared_of_row {parameters : Parameters} {instruction : Instruction}
    (h : instruction.givesRow = true) : instruction.declared? parameters = none := by
  cases instruction with
  | defineFile record => cases h
  | _ => rfl

theorem Instruction.row_or_quiet_or_declared (parameters : Parameters)
    (instruction : Instruction) :
    instruction.givesRow = true ∨
      (instruction.givesRow = false ∧ instruction.declared? parameters = none) ∨
      ∃ record, instruction.declared? parameters = some record := by
  cases hrow : instruction.givesRow with
  | true => exact .inl rfl
  | false =>
    cases hdeclared : instruction.declared? parameters with
    | none => exact .inr (.inl ⟨rfl, rfl⟩)
    | some record => exact .inr (.inr ⟨record, rfl⟩)

namespace ProgramMeaning

variable {parameters : Parameters} {registers : Registers} {table other : FileTable}

theorem of_row {instruction : Instruction} (h : instruction.givesRow = true) (waiting : Bool)
    (rest : List Instruction) :
    of parameters waiting registers table (instruction :: rest) =
      match table.file? (instruction.shown parameters registers).fileIndex with
      | none =>
        { rows := [], files := table.files
          fault := some (.format
            (.badFileIndex (instruction.shown parameters registers).fileIndex)) }
      | some file =>
        let more := of parameters false (instruction.left parameters registers) table rest
        { more with rows :=
            { registers := instruction.shown parameters registers, file } :: more.rows } := by
  rw [(Instruction.effect_of_row h).2]
  conv_lhs => unfold of
  exact if_pos h

theorem of_silent {instruction : Instruction} (h : instruction.givesRow = false)
    (hquiet : instruction.declared? parameters = none) (waiting : Bool)
    (rest : List Instruction) :
    of parameters waiting registers table (instruction :: rest) =
      of parameters true (instruction.left parameters registers) table rest := by
  rw [(Instruction.effect_of_silent h).2]
  conv_lhs => unfold of
  simp only [h, Bool.false_eq_true, if_false]
  cases instruction with
  | defineFile record =>
    simp only [if_pos (Instruction.le_version_of_quiet hquiet)]
  | _ => rfl

theorem of_declared {instruction : Instruction} {record : FileRecord}
    (h : instruction.declared? parameters = some record) (waiting : Bool)
    (rest : List Instruction) :
    of parameters waiting registers table (instruction :: rest) =
      match table.entryOf record with
      | .error e => { rows := [], files := table.files, fault := some e }
      | .ok entry => of parameters true registers (table.append entry) rest := by
  obtain ⟨rfl, hversion⟩ := Instruction.declared_eq_some h
  conv_lhs => unfold of
  simp only [if_neg hversion]
  rfl

/-- What a program means depends on the entries and directories of the file table only. -/
theorem of_congr (table other : FileTable) (hcomp : table.compDir = other.compDir)
    (hdirs : table.directories = other.directories) (hfiles : table.files = other.files)
    (waiting : Bool) (program : List Instruction) :
    of parameters waiting registers table program =
      of parameters waiting registers other program := by
  induction program generalizing waiting registers table other with
  | nil => simp only [of, hfiles]
  | cons instruction rest ih =>
    rcases instruction.row_or_quiet_or_declared parameters with
      hrow | ⟨hsilent, hquiet⟩ | ⟨record, hdeclared⟩
    · rw [of_row hrow, of_row hrow, ih _ _ hcomp hdirs hfiles, FileTable.file?, FileTable.file?,
        hfiles]
    · rw [of_silent hsilent hquiet, of_silent hsilent hquiet, ih _ _ hcomp hdirs hfiles]
    · rw [of_declared hdeclared, of_declared hdeclared, FileTable.entryOf_congr hcomp hdirs, hfiles]
      cases other.entryOf record with
      | error e => rfl
      | ok entry =>
        dsimp only
        have hentries : (table.append entry).files = (other.append entry).files :=
          congrArg (· ++ [entry]) hfiles
        exact ih (table.append entry) (other.append entry) hcomp hdirs hentries true

end ProgramMeaning

/-- A trace gives the rows of a meaning, leaves its files and ends as it does. -/
structure Trace.Means (trace : Trace) (meaning : ProgramMeaning) : Prop where
  rows : trace.rows = meaning.rows
  files : trace.files.files = meaning.files
  fault : trace.fault = meaning.fault

/-- A written program from a place in a unit on, and what a pass there finds. -/
structure LineProgram.Stands (program : LineProgram) (instructions : List Instruction)
    (registers : Registers) (files : FileTable) (offset : ℕ) : Prop where
  writable : ∀ instruction ∈ instructions, instruction.isWritable program.header.toParameters
  bytes : program.bytes.drop offset =
    Instruction.listBytes program.header.toParameters instructions
  le_length : offset ≤ program.bytes.length
  definedThrough_le : files.definedThrough ≤ offset
  withinInstruction : registers.WithinInstruction program.header.toParameters

namespace LineProgram

variable {program : LineProgram} {registers : Registers} {files : FileTable} {offset : ℕ}
  {instruction : Instruction} {rest : List Instruction}

theorem Stands.bytes_cons (h : program.Stands (instruction :: rest) registers files offset) :
    program.bytes.drop offset = instruction.bytes program.header.toParameters ++
      Instruction.listBytes program.header.toParameters rest := by
  rw [h.bytes, Instruction.listBytes, List.flatMap_cons]
  rfl

theorem Stands.end_le (h : program.Stands (instruction :: rest) registers files offset) :
    offset + (instruction.bytes program.header.toParameters).length ≤ program.bytes.length := by
  have hlength := congrArg List.length h.bytes_cons
  have hle := h.le_length
  rw [List.length_drop, List.length_append] at hlength
  omega

theorem Stands.tail (h : program.Stands (instruction :: rest) registers files offset)
    {next : Registers} {more : FileTable}
    (hdefined : more.definedThrough ≤
      offset + (instruction.bytes program.header.toParameters).length)
    (hwithin : next.WithinInstruction program.header.toParameters) :
    program.Stands rest next more
      (offset + (instruction.bytes program.header.toParameters).length) := by
  refine ⟨fun i hi => h.writable i (List.mem_cons_of_mem _ hi), ?_, h.end_le, hdefined, hwithin⟩
  rw [← List.drop_drop, h.bytes_cons, List.drop_left]

/-- The step at the first instruction executes it. -/
theorem Stands.step (h : program.Stands (instruction :: rest) registers files offset)
    (haccepted : program.Accepted) :
    ∃ finish, offset < finish ∧
      finish ≤ offset + (instruction.bytes program.header.toParameters).length ∧
      MachineState.step program.header.toParameters ⟨registers, files⟩
          ⟨offset, program.bytes.drop offset⟩ =
        match MachineState.execute program.header.toParameters ⟨registers, files⟩ offset finish
            instruction with
        | .error e => (⟨registers, files⟩, .error e)
        | .ok (next, row) => (next, .ok (row,
            ⟨offset + (instruction.bytes program.header.toParameters).length,
              program.bytes.drop
                (offset + (instruction.bytes program.header.toParameters).length)⟩)) := by
  have hread := Instruction.readsAs_paddedBytes haccepted.opcodeBase
    (h.writable instruction List.mem_cons_self) (h.end_le.trans_lt haccepted.length_lt)
  obtain ⟨finish, hlt, hle, hstep⟩ := MachineState.step_of_readsAs hread ⟨registers, files⟩
    (Instruction.listBytes program.header.toParameters rest)
  refine ⟨finish, hlt, hle, ?_⟩
  rw [← List.drop_drop, h.bytes_cons, List.drop_left]
  exact hstep

theorem Stands.at? {instructions : List Instruction}
    (h : program.Stands instructions registers files offset) :
    Cursor.at? program.bytes offset = .ok ⟨offset, program.bytes.drop offset⟩ :=
  Reader.at?_eq_ok.2 ⟨h.le_length, rfl⟩

theorem Stands.not_atEnd (h : program.Stands (instruction :: rest) registers files offset)
    (haccepted : program.Accepted) :
    (⟨offset, program.bytes.drop offset⟩ : Cursor).atEnd = false := by
  obtain ⟨finish, hlt, hle, -⟩ := h.step haccepted
  have hdrop := congrArg List.length h.bytes_cons
  rw [List.length_append] at hdrop
  cases hbytes : program.bytes.drop offset with
  | nil =>
    rw [hbytes, List.length_nil] at hdrop
    omega
  | cons b more => rfl

variable (program) in
/-- Every trace begun at a place where the given instructions stand is what they mean, whether
the pass waits for a row or was just given one. -/
def Follows (instructions : List Instruction) : Prop :=
  ∀ ⦃registers files offset⦄, program.Stands instructions registers files offset →
    (∀ pass : Pass, Trace.Means
      ((pass.conclude (MachineState.run program.header.toParameters ⟨registers, files⟩
        ⟨offset, program.bytes.drop offset⟩)).trace program)
      (.of program.header.toParameters true registers files instructions)) ∧
    Trace.Means (({ registers, offset } : Pass).trace program files)
      (.of program.header.toParameters false registers files instructions)

theorem follows_nil : program.Follows [] := by
  intro registers files offset h
  have hend : (⟨offset, program.bytes.drop offset⟩ : Cursor).atEnd = true := by
    rw [h.bytes]
    rfl
  constructor
  · intro pass
    rw [MachineState.run_of_atEnd hend]
    exact ⟨rfl, rfl, rfl⟩
  · rw [Pass.trace_eq, Pass.next_of_end h.at? hend]
    exact ⟨rfl, rfl, rfl⟩

/-- What is left of a request that comes to a row. -/
theorem Stands.means_row (h : program.Stands (instruction :: rest) registers files offset)
    (ih : program.Follows rest) (haccepted : program.Accepted)
    (hrow : instruction.givesRow = true) (waiting : Bool) (pass : Pass) {last : Cursor}
    (hlast : last.offset = offset + (instruction.bytes program.header.toParameters).length) :
    Trace.Means
      ((pass.conclude
        (⟨instruction.left program.header.toParameters registers, files⟩,
          .ok (some (instruction.shown program.header.toParameters registers), last))).trace
        program)
      (.of program.header.toParameters waiting registers files (instruction :: rest)) := by
  have hfiles := Pass.filesAfter_agrees files last
  rw [ProgramMeaning.of_row hrow, Pass.conclude]
  cases hfile : files.file? (instruction.shown program.header.toParameters registers).fileIndex with
  | none =>
    rw [Pass.finishRow_of_none _ hfile]
    exact ⟨rfl, hfiles.files, rfl⟩
  | some file =>
    rw [Pass.finishRow_of_some _ hfile, hlast]
    have hwithin := Instruction.left_withinInstruction haccepted.maximumOperations
      h.withinInstruction instruction
    have hdefined : (Pass.filesAfter files last).definedThrough ≤
        offset + (instruction.bytes program.header.toParameters).length := by
      rw [hfiles.definedThrough]
      exact h.definedThrough_le.trans (Nat.le_add_right _ _)
    have hstands := h.tail hdefined hwithin
    have hmore := (ih hstands).2
    rw [ProgramMeaning.of_congr _ _ hfiles.compDir hfiles.directories hfiles.files] at hmore
    exact ⟨congrArg (List.cons _) hmore.rows, hmore.files, hmore.fault⟩

theorem Stands.means_run (h : program.Stands (instruction :: rest) registers files offset)
    (ih : program.Follows rest) (haccepted : program.Accepted) (waiting : Bool) (pass : Pass) :
    Trace.Means
      ((pass.conclude (MachineState.run program.header.toParameters ⟨registers, files⟩
        ⟨offset, program.bytes.drop offset⟩)).trace program)
      (.of program.header.toParameters waiting registers files (instruction :: rest)) := by
  have hend := h.not_atEnd haccepted
  obtain ⟨finish, hlt, hle, hstep⟩ := h.step haccepted
  have hdefined := h.definedThrough_le
  have hspecial (opcode : UInt8) (hopcode : instruction = .special opcode) :
      program.header.opcodeBase ≤ opcode := by
    subst hopcode
    exact of_decide_eq_true (h.writable _ List.mem_cons_self)
  have hwithin := Instruction.left_withinInstruction haccepted.maximumOperations
    h.withinInstruction instruction
  rcases instruction.row_or_quiet_or_declared program.header.toParameters with
    hrow | ⟨hsilent, hquiet⟩ | ⟨record, hdeclared⟩
  · rw [Instruction.execute_eq hspecial haccepted.lineRange h.withinInstruction
      (Instruction.declared_of_row hrow), (Instruction.effect_of_row hrow).1] at hstep
    rw [MachineState.run_of_row hend hstep]
    exact h.means_row ih haccepted hrow waiting pass rfl
  · rw [Instruction.execute_eq hspecial haccepted.lineRange h.withinInstruction hquiet,
      (Instruction.effect_of_silent hsilent).1] at hstep
    rw [MachineState.run_of_silent hend hstep, ProgramMeaning.of_silent hsilent hquiet]
    exact (ih (h.tail (by omega) hwithin)).1 pass
  · rw [MachineState.execute_declared _ hdeclared, FileTable.define_of_le _ hdefined] at hstep
    rw [ProgramMeaning.of_declared hdeclared]
    cases hentry : files.entryOf record with
    | error e =>
      rw [hentry] at hstep
      rw [MachineState.run_of_error hend hstep]
      exact ⟨rfl, rfl, rfl⟩
    | ok entry =>
      rw [hentry] at hstep
      rw [MachineState.run_of_silent hend hstep]
      have hstands : program.Stands rest registers
          { files.append entry with definedThrough := finish } _ :=
        h.tail hle h.withinInstruction
      have hmeaning : ProgramMeaning.of program.header.toParameters true registers
          { files.append entry with definedThrough := finish } rest =
          .of program.header.toParameters true registers (files.append entry) rest := by
        apply ProgramMeaning.of_congr <;> rfl
      have hmore := (ih hstands).1 pass
      rwa [hmeaning] at hmore

theorem follows (haccepted : program.Accepted) (instructions : List Instruction) :
    program.Follows instructions := by
  induction instructions with
  | nil => exact follows_nil
  | cons instruction rest ih =>
    intro registers files offset h
    constructor
    · exact h.means_run ih haccepted true
    · rw [Pass.trace_eq, Pass.next_of_place rfl h.at? (h.not_atEnd haccepted)]
      exact h.means_run ih haccepted false _

end LineProgram
namespace ProgramMeaning

variable {parameters : Parameters} {registers : Registers} {table : FileTable}

/-- Whether a program ends with a row, or is empty and nothing before it waits for one. -/
def endsPlainly (waiting : Bool) (program : List Instruction) : Bool :=
  program.getLast?.elim (!waiting) Instruction.givesRow

theorem endsPlainly_cons (waiting : Bool) (instruction : Instruction)
    (rest : List Instruction) :
    endsPlainly waiting (instruction :: rest) = endsPlainly (!instruction.givesRow) rest := by
  cases rest with
  | nil => simp [endsPlainly]
  | cons next more => simp [endsPlainly, List.getLast?_cons]

/-- A program that can be written ends plainly or waiting for a row, unless a row before has no
file. -/
theorem fault_of_writable (waiting : Bool) {program : List Instruction}
    (h : ∀ instruction ∈ program, instruction.isWritable parameters) :
    (∃ index, (of parameters waiting registers table program).fault =
      some (.format (.badFileIndex index))) ∨
    (of parameters waiting registers table program).fault =
      if endsPlainly waiting program then none else some (.format .unexpectedProgramEnd) := by
  induction program generalizing waiting registers table with
  | nil =>
    right
    cases waiting <;> rfl
  | cons instruction rest ih =>
    have hrest := fun i hi => h i (List.mem_cons_of_mem _ hi)
    rw [endsPlainly_cons]
    rcases instruction.row_or_quiet_or_declared parameters with
      hrow | ⟨hsilent, hquiet⟩ | ⟨record, hdeclared⟩
    · rw [of_row hrow, hrow]
      cases table.file? (instruction.shown parameters registers).fileIndex with
      | none => exact .inl ⟨_, rfl⟩
      | some file => exact ih false hrest
    · rw [of_silent hsilent hquiet, hsilent]
      exact ih true hrest
    · obtain ⟨rfl, -⟩ := Instruction.declared_eq_some hdeclared
      rw [of_declared hdeclared]
      have hname := (record.isWritable_iff.mp (h _ List.mem_cons_self)).1
      obtain ⟨entry, hentry⟩ := table.exists_entryOf hname
      rw [hentry]
      exact ih true hrest

end ProgramMeaning

/-- The trace of a table whose program is written from instructions is what they mean. -/
theorem LineTable.trace_means {order : ByteOrder} {lines : List UInt8} {offset : ℕ}
    {context : UnitContext} {table : LineTable} {program : List Instruction}
    (hparse : parse order lines offset context = .ok table)
    (hwritable : ∀ instruction ∈ program,
      instruction.isWritable table.program.header.toParameters)
    (hbytes : table.program.bytes.drop table.program.header.programOffset =
      Instruction.listBytes table.program.header.toParameters program) :
    let parameters := table.program.header.toParameters
    let meaning := ProgramMeaning.of parameters false (.initial parameters.defaultIsStmt)
      table.files program
    table.trace.rows = meaning.rows ∧ table.trace.files.files = meaning.files ∧
      table.trace.fault = meaning.fault ∧
      ((∃ index, meaning.fault = some (.format (.badFileIndex index))) ∨
        meaning.fault =
          if ProgramMeaning.endsPlainly false program then none
          else some (.format .unexpectedProgramEnd)) := by
  obtain ⟨haccepted, hdefined⟩ := accepted_of_parse hparse
  have hstands : table.program.Stands program
      (.initial table.program.header.defaultIsStmt) table.files
      table.program.header.programOffset :=
    ⟨hwritable, hbytes, haccepted.programOffset_le, hdefined ▸ Nat.zero_le _,
      Registers.initial_withinInstruction haccepted.maximumOperations _⟩
  have hmeans := (LineProgram.follows haccepted program hstands).2
  exact ⟨hmeans.rows, hmeans.files, hmeans.fault,
    ProgramMeaning.fault_of_writable false hwritable⟩

/-- A unit whose program declares a file and then gives a row and ends a sequence. -/
theorem LineTable.trace_means_late_file :
    ∃ table, LineTable.parse .little
        [26, 0, 0, 0, 2, 0, 8, 0, 0, 0, 1, 1, 0, 1, 2, 0, 0, 0,
          0, 6, 3, 97, 0, 0, 0, 0, 1, 0, 1, 1] 0 { compDir := "/", name := "u" } = .ok table ∧
      table.trace.rows.map (·.file.path) = ["/a", "/a"] ∧ table.trace.fault = none := by
  have hparse : LineTable.parse .little
      [26, 0, 0, 0, 2, 0, 8, 0, 0, 0, 1, 1, 0, 1, 2, 0, 0, 0,
        0, 6, 3, 97, 0, 0, 0, 0, 1, 0, 1, 1] 0 { compDir := "/", name := "u" } = .ok
      { program :=
          { header :=
              { order := .little, version := 2, addressSize := 8, minimumInstructionLength := 1
                maximumOperations := 1, defaultIsStmt := true, lineBase := 0, lineRange := 1
                opcodeBase := 2, format := .dwarf32, unitLength := 26, segmentSelectorSize := 0
                headerLength := 8, programOffset := 18, operandCounts := [0, 0]
                directoryFormat := [], fileFormat := [] }
            bytes := [26, 0, 0, 0, 2, 0, 8, 0, 0, 0, 1, 1, 0, 1, 2, 0, 0, 0,
              0, 6, 3, 97, 0, 0, 0, 0, 1, 0, 1, 1]
            tablesEnd := 18 }
        files :=
          { compDir := "/", directories := ["/"]
            files := [{ path := "/u", directoryIndex := 0 }] } } := by
    decide +kernel
  have hprogram := @LineTable.trace_means _ _ _ _ _
    [.defineFile ⟨"a", 0, 0, 0⟩, .copy, .endSequence] hparse (by decide) (by decide +kernel)
  obtain ⟨hrows, -, hfault, -⟩ := hprogram
  refine ⟨_, hparse, ?_, ?_⟩
  · rw [hrows]
    decide +kernel
  · rw [hfault]
    decide +kernel

end DwarfLines
