import DwarfLines.Machine.Execution

/-!
# Passes over a line number program

A pass is one reading of the program from its start. It owns its registers and its place, while
the file table is shared with every other pass over the same program. Asked for the next row it
runs instructions up to one that emits a row; after a failure it gives nothing more.

The trace of a pass lists every row it still gives, each with the file table and the pass as they
are right after it. Whatever reads several rows is a function of the trace.
-/

namespace DwarfLines

/-- One row of a line table: the registers it was emitted with and the file they refer to. -/
structure Row where
  registers : Registers
  file : FileEntry
  deriving DecidableEq, Repr

/-- A place in a program and the registers there. -/
structure Pass where
  registers : Registers
  offset : Nat
  failed : Bool := false
  deriving DecidableEq, Repr

/-- What asking a pass for a row leaves, and the row or failure it gives. -/
structure Advance where
  files : FileTable
  pass : Pass
  answer : Option (Except LineError Row)

namespace Pass

def start (program : LineProgram) : Pass where
  registers := .initial program.header.defaultIsStmt
  offset := program.header.programOffset

/-- Whether the pass gives nothing more. -/
def isFinished (program : LineProgram) (pass : Pass) : Bool :=
  pass.failed || program.size ≤ pass.offset

/-- Ends a pass whose instructions emitted a row: the row needs its file, and with the last byte
of the program the file table is known to be complete. -/
def finishRow (state : MachineState) (row : Registers) (last : Cursor) : Advance :=
  let files := if last.atEnd then state.files.markComplete else state.files
  let pass : Pass := { registers := state.registers, offset := last.offset }
  match files.file? row.fileIndex with
  | some file => { files, pass, answer := some (.ok { registers := row, file }) }
  | none =>
    { files
      pass := { pass with failed := true }
      answer := some (.error (.format (.badFileIndex row.fileIndex))) }

/-- Asks a pass for its next row. A failure while instructions run leaves the pass at the place
it was asked, with the registers at the moment of the failure. -/
def next (program : LineProgram) (files : FileTable) (pass : Pass) : Advance :=
  if pass.failed then
    { files, pass, answer := none }
  else
    match Cursor.at? program.bytes pass.offset with
    | .error e =>
      { files, pass := { pass with failed := true }, answer := some (.error (.read e)) }
    | .ok c =>
      if c.atEnd then
        { files, pass, answer := none }
      else
        match MachineState.run program.header.toParameters ⟨pass.registers, files⟩ c with
        | (state, .error e) =>
          { files := state.files
            pass := { registers := state.registers, offset := pass.offset, failed := true }
            answer := some (.error e) }
        | (state, .ok (none, last)) =>
          { files := state.files
            pass := { registers := state.registers, offset := last.offset, failed := true }
            answer := some (.error (.format .unexpectedProgramEnd)) }
        | (state, .ok (some row, last)) => finishRow state row last

theorem finishRow_offset (state : MachineState) (row : Registers) (last : Cursor) :
    (finishRow state row last).pass.offset = last.offset := by
  unfold finishRow
  dsimp only
  split <;> rfl

theorem next_offset {program : LineProgram} {files : FileTable} {pass : Pass} {row : Row}
    (h : (next program files pass).answer = some (.ok row)) :
    pass.offset < (next program files pass).pass.offset ∧
      (next program files pass).pass.offset ≤ program.size := by
  unfold next at h ⊢
  split at h
  · cases h
  · split at h
    · cases h
    · rename_i hfailed c hat
      obtain ⟨hle, rfl⟩ := Reader.at?_eq_ok.1 hat
      split at h
      · cases h
      · split at h
        · cases h
        · cases h
        · rename_i hrun
          have hlt := MachineState.run_lt hrun
          have hsum := Cursor.offset_add_length hlt.1
          have hoff := hlt.2
          simp only [List.length_drop] at hsum hoff
          simp only [*, if_false, finishRow_offset, Bool.false_eq_true, true_and,
            LineProgram.size]
          omega

end Pass

/-- A row together with the file table and the pass right after it was given. -/
structure Moment where
  row : Row
  files : FileTable
  pass : Pass
  deriving DecidableEq, Repr

/-- All rows that a pass still gives, and how it ends. -/
structure Trace where
  moments : List Moment
  files : FileTable
  pass : Pass
  fault : Option LineError
  deriving DecidableEq, Repr

def Pass.trace (program : LineProgram) (files : FileTable) (pass : Pass) : Trace :=
  let advance := pass.next program files
  match h : advance.answer with
  | none => { moments := [], files := advance.files, pass := advance.pass, fault := none }
  | some (.error e) =>
    { moments := [], files := advance.files, pass := advance.pass, fault := some e }
  | some (.ok row) =>
    have := next_offset h
    let rest := trace program advance.files advance.pass
    { rest with moments := ⟨row, advance.files, advance.pass⟩ :: rest.moments }
termination_by program.size - pass.offset

def Trace.rows (trace : Trace) : List Row := trace.moments.map (·.row)

end DwarfLines
