import DwarfLines.Table.LineTable

/-!
# Passes that run at the same time

Several passes may share one file table while they run. Each of them works in small steps: it
executes one instruction, or records that the program was run to its end, or looks up the file of
a row. A schedule says whose step comes next, and only the file table carries anything from one
pass to another.
-/

namespace DwarfLines

/-- What the next step of a pass does. -/
inductive PassStage where
  /-- Executes an instruction, perhaps not the first since the last row. -/
  | executing (stepped : Bool)
  /-- Records that the program was run to its end. -/
  | completing (row : Registers)
  /-- Looks up the file of a row. -/
  | resolving (row : Registers)
  | ended
  deriving DecidableEq, Repr

/-- A pass in the middle of its work, with the rows it gave. -/
structure SteppedPass where
  registers : Registers
  place : Cursor
  stage : PassStage
  rows : List Row := []
  fault : Option LineError := none
  deriving DecidableEq, Repr

namespace SteppedPass

def start (program : LineProgram) : SteppedPass where
  registers := .initial program.header.defaultIsStmt
  place := ⟨program.header.programOffset, program.bytes.drop program.header.programOffset⟩
  stage := .executing false

variable (pass : SteppedPass)

def fail (e : LineError) : SteppedPass := { pass with stage := .ended, fault := some e }

def execute (program : LineProgram) (files : FileTable) (stepped : Bool) :
    FileTable × SteppedPass :=
  if pass.place.atEnd then
    if stepped then (files, pass.fail (.format .unexpectedProgramEnd))
    else (files, { pass with stage := .ended })
  else
    match MachineState.step program.header.toParameters ⟨pass.registers, files⟩ pass.place with
    | (state, .error e) => (state.files, { pass with registers := state.registers }.fail e)
    | (state, .ok (none, next)) =>
      (state.files,
        { pass with registers := state.registers, place := next, stage := .executing true })
    | (state, .ok (some row, next)) =>
      (state.files,
        { pass with
          registers := state.registers
          place := next
          stage := if next.atEnd then .completing row else .resolving row })

def resolve (files : FileTable) (row : Registers) : SteppedPass :=
  match files.file? row.fileIndex with
  | some file =>
    { pass with
      stage := .executing false, rows := pass.rows ++ [{ registers := row, file }] }
  | none => pass.fail (.format (.badFileIndex row.fileIndex))

def step (program : LineProgram) (files : FileTable) : FileTable × SteppedPass :=
  match pass.stage with
  | .executing stepped => pass.execute program files stepped
  | .completing row => (files.markComplete, { pass with stage := .resolving row })
  | .resolving row => (files, pass.resolve files row)
  | .ended => (files, pass)

end SteppedPass

/-- Passes over one program, and the file table that they share. -/
structure Interleaving where
  files : FileTable
  passes : List SteppedPass
  deriving DecidableEq, Repr

namespace Interleaving

/-- The given number of passes over a table, none of which has begun. -/
def start (table : LineTable) (count : Nat) : Interleaving where
  files := table.files
  passes := List.replicate count (.start table.program)

def step (program : LineProgram) (running : Interleaving) (number : Nat) : Interleaving :=
  match running.passes[number]? with
  | some pass =>
    let (files, next) := pass.step program running.files
    { files, passes := running.passes.set number next }
  | none => running

def run (program : LineProgram) (running : Interleaving) (schedule : List Nat) : Interleaving :=
  schedule.foldl (step program) running

end Interleaving
end DwarfLines
