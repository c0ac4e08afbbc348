import Mathlib
import DwarfLines.Machine.Execution
import DwarfLines.Proofs.Files.Covers

/-!
# The machine on a shared file table

What a step reads and does depends on the file table only where the instruction declares a file.
`MachineState.step_cases` says so once, and everything about two passes over one program follows
from it: a step does the same on tables that agree, and on a table that already covers what the
step would append it appends nothing and does the same otherwise. The offset up to which
declarations were taken carries the argument, since it never passes the end of the last step.
-/

namespace DwarfLines

namespace Instruction

variable (parameters : Parameters)

/-- The record that an instruction adds to the file table. Version 5 takes none. -/
def declared? : Instruction → Option FileRecord
  | defineFile record => if 5 ≤ parameters.version then none else some record
  | _ => none

variable {parameters}

theorem declared_eq_some {instruction : Instruction} {record : FileRecord}
    (h : instruction.declared? parameters = some record) :
    instruction = defineFile record ∧ ¬ 5 ≤ parameters.version := by
  cases instruction with
  | defineFile declared =>
    by_cases hversion : 5 ≤ parameters.version
    · simp [declared?, hversion] at h
    · simp only [declared?, if_neg hversion, Option.some.injEq] at h
      exact ⟨congrArg defineFile h, hversion⟩
  | _ => cases h

theorem le_version_of_quiet {record : FileRecord}
    (h : (defineFile record).declared? parameters = none) : 5 ≤ parameters.version := by
  by_contra hlt
  simp [declared?, hlt] at h

end Instruction

namespace MachineState

variable (parameters : Parameters)

/-- An instruction that declares no file neither reads the file table nor changes it. -/
theorem execute_quiet {instruction : Instruction} (h : instruction.declared? parameters = none)
    (registers : Registers) (start finish : ℕ) :
    ∃ effect : Except LineError (Registers × Option Registers), ∀ files,
      execute parameters ⟨registers, files⟩ start finish instruction =
        effect.map fun (next, row) => (⟨next, files⟩, row) := by
  refine ⟨(execute parameters ⟨registers, { compDir := "" }⟩ start finish instruction).map
    fun (next, row) => (next.registers, row), fun files => ?_⟩
  cases instruction with
  | special opcode =>
    simp only [execute]
    cases SpecialOpcode.decode? opcode parameters.opcodeBase parameters.lineBase
      parameters.lineRange <;> rfl
  | defineFile record =>
    simp only [execute, if_pos (Instruction.le_version_of_quiet h)]
    rfl
  | _ => rfl

theorem execute_declared {instruction : Instruction} {record : FileRecord}
    (h : instruction.declared? parameters = some record) (state : MachineState)
    (start finish : ℕ) :
    execute parameters state start finish instruction =
      (state.files.define start finish record).map fun files => ({ state with files }, none) := by
  obtain ⟨rfl, hversion⟩ := Instruction.declared_eq_some h
  simp only [execute, if_neg hversion]
  cases state.files.define start finish record <;> rfl

theorem step_eq_ok {state next : MachineState} {c last : Cursor} {row : Option Registers} :
    step parameters state c = (next, .ok (row, last)) ↔
      ∃ decoded operandsEnd, Decoded.read parameters c = .ok (decoded, operandsEnd) ∧
        state.execute parameters c.offset operandsEnd.offset decoded.instruction =
          .ok (next, row) ∧
        decoded.close operandsEnd = .ok ((), last) := by
  constructor
  · intro h
    unfold step at h
    split at h
    · cases h
    · rename_i decoded operandsEnd hread
      split at h
      · cases h
      · rename_i hexecute
        split at h
        · cases h
        · rename_i hclose
          cases h
          exact ⟨decoded, operandsEnd, hread, hexecute, hclose⟩
  · rintro ⟨decoded, operandsEnd, hread, hexecute, hclose⟩
    simp only [step, hread, hexecute, hclose]

/-- All that a step can do. Either it has nothing to do with the file table, or it takes one
declaration, which begins where the step begins and ends before the next step begins. -/
theorem step_cases (registers : Registers) (c : Cursor) :
    (∃ next result, ∀ files, step parameters ⟨registers, files⟩ c = (⟨next, files⟩, result)) ∨
    ∃ record finish, ∃ closing : Except LineError Cursor,
      ¬ 5 ≤ parameters.version ∧ c.offset < finish ∧
      (∀ last, closing = .ok last → finish ≤ last.offset) ∧
      ∀ files, step parameters ⟨registers, files⟩ c =
        match files.define c.offset finish record with
        | .error e => (⟨registers, files⟩, .error e)
        | .ok more => (⟨registers, more⟩, closing.map fun last => (none, last)) := by
  cases hread : Decoded.read parameters c with
  | error e => exact .inl ⟨registers, .error e, fun files => by simp only [step, hread]⟩
  | ok p =>
    obtain ⟨decoded, operandsEnd⟩ := p
    cases hdeclared : decoded.instruction.declared? parameters with
    | none =>
      left
      obtain ⟨effect, heffect⟩ :=
        execute_quiet parameters hdeclared registers c.offset operandsEnd.offset
      cases effect with
      | error e =>
        exact ⟨registers, .error e, fun files => by
          simp only [step, hread, heffect, Except.map]⟩
      | ok result =>
        obtain ⟨next, row⟩ := result
        refine ⟨next, (decoded.close operandsEnd).map fun ((), last) => (row, last),
          fun files => ?_⟩
        simp only [step, hread, heffect, Except.map]
        cases decoded.close operandsEnd <;> rfl
    | some record =>
      right
      refine ⟨record, operandsEnd.offset, (decoded.close operandsEnd).map (·.2),
        (Instruction.declared_eq_some hdeclared).2, (Decoded.consuming_read parameters hread).2, ?_,
        fun files => ?_⟩
      · intro last hlast
        cases hclose : decoded.close operandsEnd with
        | error e => simp [hclose, Except.map] at hlast
        | ok closed =>
          simp only [hclose, Except.map, Except.ok.injEq] at hlast
          subst hlast
          exact Cursor.offset_le (Decoded.forward_close _ hclose)
      · simp only [step, hread, execute_declared parameters hdeclared]
        cases files.define c.offset operandsEnd.offset record with
        | error e => rfl
        | ok more =>
          simp only [Except.map]
          cases decoded.close operandsEnd <;> rfl

variable {parameters}

/-- States with the same registers whose file tables agree. -/
structure Agrees (state other : MachineState) : Prop where
  registers : state.registers = other.registers
  files : state.files.Agrees other.files

variable (parameters)

theorem step_agrees {state other : MachineState} (h : state.Agrees other) (c : Cursor) :
    (step parameters state c).1.Agrees (step parameters other c).1 ∧
      (step parameters state c).2 = (step parameters other c).2 := by
  obtain ⟨registers, table⟩ := state
  obtain ⟨_, expected⟩ := other
  obtain ⟨rfl, hfiles⟩ := h
  rcases step_cases parameters registers c with
    ⟨next, result, hstep⟩ | ⟨record, finish, closing, -, -, -, hstep⟩
  · rw [hstep, hstep]
    exact ⟨⟨rfl, hfiles⟩, rfl⟩
  · rw [hstep, hstep]
    have halike := FileTable.Agrees.define hfiles c.offset finish record
    generalize table.define c.offset finish record = result at halike ⊢
    generalize expected.define c.offset finish record = other at halike ⊢
    cases halike with
    | error e => exact ⟨⟨rfl, hfiles⟩, rfl⟩
    | ok hagrees => exact ⟨⟨rfl, hagrees⟩, rfl⟩

theorem step_covers (state : MachineState) (c : Cursor) :
    (step parameters state c).1.files.Covers state.files := by
  obtain ⟨registers, table⟩ := state
  rcases step_cases parameters registers c with
    ⟨next, result, hstep⟩ | ⟨record, finish, closing, -, hlt, -, hstep⟩
  · rw [hstep]
    exact .refl _
  · rw [hstep]
    cases hdefine : table.define c.offset finish record with
    | error e => exact .refl _
    | ok more => exact (FileTable.define_covers hlt hdefine).1

theorem step_files_of_five (h : 5 ≤ parameters.version) (state : MachineState) (c : Cursor) :
    (step parameters state c).1.files = state.files := by
  obtain ⟨registers, table⟩ := state
  rcases step_cases parameters registers c with
    ⟨next, result, hstep⟩ | ⟨record, finish, closing, hversion, -⟩
  · rw [hstep]
  · exact absurd h hversion

/-- A step on a table that already covers what the step appends. It must not have gone on after
the step failed, for otherwise the failure might have come from a declaration. -/
theorem step_covered (registers : Registers) (own table : FileTable) (c : Cursor)
    (hcovers : table.Covers (step parameters ⟨registers, own⟩ c).1.files)
    (hfailed : ∀ e, (step parameters ⟨registers, own⟩ c).2 = .error e →
      table.Agrees (step parameters ⟨registers, own⟩ c).1.files) :
    step parameters ⟨registers, table⟩ c =
      (⟨(step parameters ⟨registers, own⟩ c).1.registers, table⟩,
        (step parameters ⟨registers, own⟩ c).2) := by
  rcases step_cases parameters registers c with
    ⟨next, result, hstep⟩ | ⟨record, finish, closing, -, hlt, -, hstep⟩
  · rw [hstep, hstep]
  · rw [hstep] at hcovers hfailed ⊢
    rw [hstep]
    cases hdefine : own.define c.offset finish record with
    | error e =>
      simp only [hdefine] at hfailed
      have halike := (hfailed e rfl).define c.offset finish record
      rw [hdefine] at halike
      generalize table.define c.offset finish record = result at halike ⊢
      cases halike
      rfl
    | ok more =>
      have hmore := (FileTable.define_covers hlt hdefine).2.1
      simp only [hdefine] at hcovers
      rw [FileTable.define_of_lt record (hmore.trans_le hcovers.definedThrough)]

variable {parameters}

theorem run_of_error {state next : MachineState} {c : Cursor} {e : LineError}
    (hend : c.atEnd = false) (h : step parameters state c = (next, .error e)) :
    run parameters state c = (next, .error e) := by
  rw [run, if_neg (by simp [hend])]
  split <;> simp_all

theorem run_of_row {state next : MachineState} {c last : Cursor} {row : Registers}
    (hend : c.atEnd = false) (h : step parameters state c = (next, .ok (some row, last))) :
    run parameters state c = (next, .ok (some row, last)) := by
  rw [run, if_neg (by simp [hend])]
  split <;> simp_all

theorem run_of_silent {state next : MachineState} {c last : Cursor} (hend : c.atEnd = false)
    (h : step parameters state c = (next, .ok (none, last))) :
    run parameters state c = run parameters next last := by
  rw [run, if_neg (by simp [hend])]
  split <;> simp_all

variable (parameters)

theorem run_agrees {state other : MachineState} (h : state.Agrees other) (c : Cursor) :
    (run parameters state c).1.Agrees (run parameters other c).1 ∧
      (run parameters state c).2 = (run parameters other c).2 := by
  fun_induction run parameters other c generalizing state with
  | case1 other c hend =>
    rw [run_of_atEnd hend]
    exact ⟨h, rfl⟩
  | case2 other c hend next e hstep =>
    obtain ⟨hnext, hanswer⟩ := step_agrees parameters h c
    rw [hstep] at hnext hanswer
    rw [run_of_error (by simpa using hend) (Prod.ext rfl hanswer)]
    exact ⟨hnext, rfl⟩
  | case3 other c hend next row last hstep =>
    obtain ⟨hnext, hanswer⟩ := step_agrees parameters h c
    rw [hstep] at hnext hanswer
    rw [run_of_row (by simpa using hend) (Prod.ext rfl hanswer)]
    exact ⟨hnext, rfl⟩
  | case4 other c hend next last hstep hlt ih =>
    obtain ⟨hnext, hanswer⟩ := step_agrees parameters h c
    rw [hstep] at hnext hanswer
    rw [run_of_silent (by simpa using hend) (Prod.ext rfl hanswer)]
    exact ih hnext

theorem run_files {relation : FileTable → FileTable → Prop} (hrefl : ∀ files, relation files files)
    (htrans : ∀ ⦃first second third⦄,
      relation first second → relation second third → relation first third)
    (hstep : ∀ state c, relation (step parameters state c).1.files state.files)
    (state : MachineState) (c : Cursor) :
    relation (run parameters state c).1.files state.files := by
  fun_induction run parameters state c with
  | case1 state c hend => exact hrefl _
  | case2 state c hend next e heq => simpa [heq] using hstep state c
  | case3 state c hend next row last heq => simpa [heq] using hstep state c
  | case4 state c hend next last heq hlt ih =>
    have hfirst := hstep state c
    rw [heq] at hfirst
    exact htrans ih hfirst

/-- A run only extends the file table. -/
theorem run_covers (state : MachineState) (c : Cursor) :
    (run parameters state c).1.files.Covers state.files :=
  run_files parameters FileTable.Covers.refl (fun _ _ _ => FileTable.Covers.trans)
    (step_covers parameters) state c

theorem run_files_of_five (h : 5 ≤ parameters.version) (state : MachineState) (c : Cursor) :
    (run parameters state c).1.files = state.files :=
  run_files parameters (fun _ => rfl) (fun _ _ _ => Eq.trans) (step_files_of_five parameters h)
    state c

/-- A run on a table that already covers what the run appends. -/
theorem run_covered (registers : Registers) (own table : FileTable) (c : Cursor)
    (hcovers : table.Covers (run parameters ⟨registers, own⟩ c).1.files)
    (hfailed : ∀ e, (run parameters ⟨registers, own⟩ c).2 = .error e →
      table.Agrees (run parameters ⟨registers, own⟩ c).1.files) :
    run parameters ⟨registers, table⟩ c =
      (⟨(run parameters ⟨registers, own⟩ c).1.registers, table⟩,
        (run parameters ⟨registers, own⟩ c).2) := by
  generalize hstate : (⟨registers, own⟩ : MachineState) = state at hcovers hfailed ⊢
  fun_induction run parameters state c generalizing registers own with
  | case1 state c hend =>
    subst hstate
    rw [run_of_atEnd hend]
  | case2 state c hend next e hstep =>
    subst hstate
    have hcovered := step_covered parameters registers own table c (by rwa [hstep])
      (by rw [hstep]; exact hfailed)
    rw [hstep] at hcovered
    exact run_of_error (by simpa using hend) hcovered
  | case3 state c hend next row last hstep =>
    subst hstate
    have hcovered := step_covered parameters registers own table c (by rwa [hstep])
      (by simp [hstep])
    rw [hstep] at hcovered
    exact run_of_row (by simpa using hend) hcovered
  | case4 state c hend next last hstep hlt ih =>
    subst hstate
    have hmore := run_covers parameters next last
    have hcovered := step_covered parameters registers own table c
      (by rw [hstep]; exact hcovers.trans hmore) (by simp [hstep])
    rw [hstep] at hcovered
    rw [run_of_silent (by simpa using hend) hcovered]
    exact ih _ _ rfl hcovers hfailed

end MachineState
end DwarfLines
