import DwarfLines.Bytes.Progress
import DwarfLines.Machine.Instruction
import DwarfLines.Machine.Registers

/-!
# Running the line number program

Executing an instruction changes the registers and, for a file declaration, the file table; some
instructions also emit a row. A step decodes one instruction, executes it and moves to its end.
If the end turns out to be wrong the step fails, but what was executed stays executed. A run
makes steps until a row is emitted, a step fails or the program ends; each step passes at least
one byte, so a run ends.
-/

namespace DwarfLines

/-- What the machine works on: its registers and the files known so far. -/
structure MachineState where
  registers : Registers
  files : FileTable
  deriving DecidableEq, Repr

namespace MachineState

variable (parameters : Parameters) (state : MachineState)

def withRegisters (registers : Registers) : MachineState := { state with registers }

/-- Emits the registers as a row and clears what describes one row only. -/
def emit (registers : Registers) : MachineState × Option Registers :=
  (state.withRegisters registers.clearRowFlags, some registers)

/-- Executes an instruction whose opcode and operands begin and end at the given offsets, and
gives the row it emits. -/
def execute (start finish : Nat) (instruction : Instruction) :
    Except LineError (MachineState × Option Registers) :=
  let registers := state.registers
  let silent (next : Registers) : Except LineError (MachineState × Option Registers) :=
    .ok (state.withRegisters next, none)
  match instruction with
  | .special opcode =>
    match SpecialOpcode.decode? opcode parameters.opcodeBase parameters.lineBase
        parameters.lineRange with
    | none => .error (.format (.badSpecialOpcode opcode))
    | some effect =>
      let moved := registers.advance parameters effect.operationAdvance.toUInt64
      .ok (state.emit { moved with line := moved.line + effect.lineIncrement })
  | .copy => .ok (state.emit registers)
  | .advancePc operations => silent (registers.advance parameters operations)
  | .advanceLine lines => silent { registers with line := registers.line + lines }
  | .setFile index => silent { registers with fileIndex := index }
  | .setColumn column => silent { registers with column }
  | .negateStmt => silent { registers with isStmt := !registers.isStmt }
  | .setBasicBlock => silent { registers with basicBlock := true }
  | .constAddPc => silent (registers.advance parameters parameters.constantAdvance.toUInt64)
  | .fixedAdvancePc bytes =>
    silent { registers with address := registers.address + bytes.toUInt64, opIndex := 0 }
  | .setPrologueEnd => silent { registers with prologueEnd := true }
  | .setEpilogueBegin => silent { registers with epilogueBegin := true }
  | .setIsa isa => silent { registers with isa }
  | .endSequence =>
    .ok (state.withRegisters (.initial parameters.defaultIsStmt),
      some { registers with endSequence := true })
  | .setAddress address => silent { registers with address, opIndex := 0 }
  | .defineFile record =>
    if 5 ≤ parameters.version then
      silent registers
    else do
      return ({ state with files := ← state.files.define start finish record }, none)
  | .setDiscriminator discriminator => silent { registers with discriminator }

/-- Runs the instruction at a cursor. Gives the state it leaves, and either its row and the place
after it or why it failed. -/
def step (c : Cursor) : MachineState × Except LineError (Option Registers × Cursor) :=
  match Decoded.read parameters c with
  | .error e => (state, .error e)
  | .ok (decoded, operandsEnd) =>
    match state.execute parameters c.offset operandsEnd.offset decoded.instruction with
    | .error e => (state, .error e)
    | .ok (next, row) =>
      match decoded.close operandsEnd with
      | .error e => (next, .error e)
      | .ok ((), last) => (next, .ok (row, last))

theorem step_lt {c last : Cursor} {row : Option Registers} {next : MachineState}
    (h : state.step parameters c = (next, .ok (row, last))) : c < last := by
  unfold step at h
  split at h
  · cases h
  · rename_i hread
    split at h
    · cases h
    · split at h
      · cases h
      · rename_i hclose
        cases h
        exact Cursor.lt_of_lt_of_le (Decoded.consuming_read _ hread)
          (Decoded.forward_close _ hclose)

end MachineState

/-- Runs instructions up to one that emits a row, or to the end of the program. -/
def MachineState.run (parameters : Parameters) (state : MachineState) (c : Cursor) :
    MachineState × Except LineError (Option Registers × Cursor) :=
  if c.atEnd then
    (state, .ok (none, c))
  else
    match h : state.step parameters c with
    | (next, .error e) => (next, .error e)
    | (next, .ok (some row, last)) => (next, .ok (some row, last))
    | (next, .ok (none, last)) =>
      have := Cursor.length_lt (step_lt parameters state h)
      run parameters next last
termination_by c.rest.length

namespace MachineState

theorem run_of_atEnd {parameters : Parameters} {state : MachineState} {c : Cursor}
    (h : c.atEnd = true) : run parameters state c = (state, .ok (none, c)) := by
  rw [run, if_pos h]

theorem run_lt {parameters : Parameters} {state next : MachineState} {c last : Cursor}
    {row : Registers} (h : run parameters state c = (next, .ok (some row, last))) : c < last := by
  fun_induction run parameters state c with
  | case1 => cases h
  | case2 => cases h
  | case3 state c hend next' row' last' hstep =>
    cases h
    exact step_lt parameters state hstep
  | case4 state c hend next' last' hstep hlt ih =>
    exact Cursor.lt_of_lt_of_le (step_lt parameters state hstep) (ih h).1

end MachineState
end DwarfLines
