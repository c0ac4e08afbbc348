import Mathlib
import DwarfLines.Proofs.Header.Acceptance
import DwarfLines.Proofs.Table.Completeness
import DwarfLines.Table.Interleaving

/-!
# Every schedule of passes

A pass that runs alone, step by step, is the measure of passes that run at the same time.
`LineTable.solo` says where it stands after a number of turns, and after enough of them it has given
the rows of the table's trace. A pass among others stands where the lone pass stood after as many
turns of its own, and the file table that they share is one that the lone pass meets by the turn of
the pass that got furthest. One step keeps both facts, whosever step it is, so every schedule does.
-/

namespace DwarfLines
namespace SteppedPass

/-- What becomes of a pass that executed an instruction, by the registers and the answer that the
instruction left. -/
def after (pass : SteppedPass) (registers : Registers) :
    Except LineError (Option Registers × Cursor) → SteppedPass
  | .error e => { pass with registers }.fail e
  | .ok (none, next) => { pass with registers, place := next, stage := .executing true }
  | .ok (some row, next) =>
    { pass with
      registers
      place := next
      stage := if next.atEnd then .completing row else .resolving row }

def atLast (pass : SteppedPass) (stepped : Bool) : SteppedPass :=
  if stepped then pass.fail (.format .unexpectedProgramEnd) else { pass with stage := .ended }

variable (program : LineProgram) {pass : SteppedPass}

theorem execute_of_end (h : pass.place.atEnd = true) (files : FileTable) (stepped : Bool) :
    pass.execute program files stepped = (files, pass.atLast stepped) := by
  rw [execute, if_pos h, atLast]
  split_ifs <;> rfl

theorem execute_of_place (h : pass.place.atEnd = false) (files : FileTable) (stepped : Bool) :
    pass.execute program files stepped =
      let ran := MachineState.step program.header.toParameters ⟨pass.registers, files⟩ pass.place
      (ran.1.files, pass.after ran.1.registers ran.2) := by
  rw [execute, if_neg (by simp [h])]
  rcases MachineState.step program.header.toParameters ⟨pass.registers, files⟩ pass.place with
    ⟨state, e | ⟨row | row, next⟩⟩ <;> rfl

variable (pass)

/-- A step does the same on tables that agree. -/
theorem step_agrees {table other : FileTable} (h : table.Agrees other) :
    (pass.step program table).2 = (pass.step program other).2 ∧
      (pass.step program table).1.Agrees (pass.step program other).1 := by
  unfold step
  cases pass.stage with
  | executing stepped =>
    cases hend : pass.place.atEnd with
    | true =>
      dsimp only
      rw [execute_of_end program hend, execute_of_end program hend]
      exact ⟨rfl, h⟩
    | false =>
      simp only [execute_of_place program hend]
      have hbegin : MachineState.Agrees ⟨pass.registers, table⟩ ⟨pass.registers, other⟩ := ⟨rfl, h⟩
      obtain ⟨hstate, hanswer⟩ :=
        MachineState.step_agrees program.header.toParameters hbegin pass.place
      rw [hstate.registers, hanswer]
      exact ⟨rfl, hstate.files⟩
  | completing row =>
    exact ⟨rfl, table.markComplete_agrees.trans (h.trans other.markComplete_agrees.symm)⟩
  | resolving row =>
    refine ⟨?_, h⟩
    simp only [resolve, h.file?]
  | ended => exact ⟨rfl, h⟩

theorem step_covers (files : FileTable) :
    (pass.step program files).1.Covers files ∧
      (files.complete = true → (pass.step program files).1.complete = true) := by
  unfold step
  cases pass.stage with
  | executing stepped =>
    cases hend : pass.place.atEnd with
    | true =>
      simp only [execute_of_end program hend]
      exact ⟨.refl _, id⟩
    | false =>
      simp only [execute_of_place program hend]
      have hremembers := MachineState.step_remembers program.header.toParameters
        ⟨pass.registers, files⟩ pass.place
      exact ⟨MachineState.step_covers _ _ _, hremembers.complete.trans⟩
  | completing row => exact ⟨files.markComplete_agrees.covers, fun _ => rfl⟩
  | resolving row => exact ⟨.refl _, id⟩
  | ended => exact ⟨.refl _, id⟩

/-- A step on a table that already covers what the step appends. If the step ends the pass, the
table must not have gone further. -/
theorem step_covered {own table : FileTable} (hcovers : table.Covers (pass.step program own).1)
    (hended : (pass.step program own).2.stage = .ended →
      table.Agrees (pass.step program own).1) :
    (pass.step program table).2 = (pass.step program own).2 ∧
      (pass.step program table).1.Agrees table := by
  unfold step at hcovers hended ⊢
  cases hstage : pass.stage with
  | executing stepped =>
    rw [hstage] at hcovers hended
    cases hend : pass.place.atEnd with
    | true =>
      dsimp only
      rw [execute_of_end program hend, execute_of_end program hend]
      exact ⟨rfl, .refl _⟩
    | false =>
      simp only [execute_of_place program hend] at hcovers hended ⊢
      have hcovered := MachineState.step_covered program.header.toParameters pass.registers own
        table pass.place hcovers fun e he => hended (by rw [he]; rfl)
      rw [hcovered]
      exact ⟨rfl, .refl _⟩
  | completing row => exact ⟨rfl, table.markComplete_agrees⟩
  | resolving row =>
    rw [hstage] at hcovers hended
    simp only [resolve] at hended ⊢
    cases hfile : own.file? row.fileIndex with
    | some file =>
      rw [hcovers.file? hfile]
      exact ⟨rfl, .refl _⟩
    | none =>
      rw [hfile] at hended
      rw [((hended rfl).file? row.fileIndex).trans hfile]
      exact ⟨rfl, .refl _⟩
  | ended => exact ⟨rfl, .refl _⟩

theorem step_of_ended (h : pass.stage = .ended) (files : FileTable) :
    pass.step program files = (files, pass) := by
  rw [step, h]

end SteppedPass

namespace SteppedPass

variable (program : LineProgram) {files : FileTable} {pass : SteppedPass}

/-- The pass that asks for its next row where a stepped pass stands. -/
def asked (pass : SteppedPass) : Pass :=
  { registers := pass.registers, offset := pass.place.offset }

/-- What a pass still gives if nothing comes between its steps. -/
def remaining (files : FileTable) (pass : SteppedPass) : Trace :=
  match pass.stage with
  | .executing false => pass.asked.trace program files
  | .executing true =>
    (pass.asked.conclude
      (MachineState.run program.header.toParameters ⟨pass.registers, files⟩ pass.place)).trace
      program
  | .completing row => (Pass.finishRow ⟨pass.registers, files⟩ row pass.place).trace program
  | .resolving row => (Pass.finishRow ⟨pass.registers, files⟩ row pass.place).trace program
  | .ended => { moments := [], files, pass := pass.asked, fault := pass.fault }

/-- The rows, the fault and the file table that a pass comes to if nothing comes between its
steps. -/
def prospect (files : FileTable) (pass : SteppedPass) : List Row × Option LineError × FileTable :=
  let rest := pass.remaining program files
  (pass.rows ++ rest.rows, rest.fault, rest.files)

variable {program}

/-- What holds of a lone pass between its steps. -/
structure Stands (program : LineProgram) (files : FileTable) (pass : SteppedPass) : Prop where
  place : pass.place = program.cursorAt pass.place.offset
  offset_le : pass.place.offset ≤ program.size
  fault : pass.stage ≠ .ended → pass.fault = none
  completing : ∀ row, pass.stage = .completing row → pass.place.atEnd = true
  resolving : ∀ row, pass.stage = .resolving row → pass.place.atEnd = true → files.complete = true

theorem stands_of_executing {stepped : Bool} (hstage : pass.stage = .executing stepped)
    (hplace : pass.place = program.cursorAt pass.place.offset)
    (hle : pass.place.offset ≤ program.size) (hfault : pass.fault = none) :
    pass.Stands program files := by
  refine ⟨hplace, hle, fun _ => hfault, fun row hrow => ?_, fun row hrow => ?_⟩
  · rw [hstage] at hrow
    cases hrow
  · rw [hstage] at hrow
    cases hrow

theorem stands_of_ended (hstage : pass.stage = .ended)
    (hplace : pass.place = program.cursorAt pass.place.offset)
    (hle : pass.place.offset ≤ program.size) : pass.Stands program files := by
  refine ⟨hplace, hle, fun h => absurd hstage h, fun row hrow => ?_, fun row hrow => ?_⟩
  · rw [hstage] at hrow
    cases hrow
  · rw [hstage] at hrow
    cases hrow

theorem start_stands (h : program.header.programOffset ≤ program.size) (files : FileTable) :
    (start program).Stands program files :=
  stands_of_executing rfl rfl h rfl

/-- Before an instruction it makes no difference whether the pass has stepped since its last
row. -/
theorem remaining_of_place (hstands : pass.Stands program files) {stepped : Bool}
    (hstage : pass.stage = .executing stepped) (hend : pass.place.atEnd = false) :
    pass.remaining program files = (pass.asked.conclude (MachineState.run
      program.header.toParameters ⟨pass.registers, files⟩ pass.place)).trace program := by
  unfold remaining
  rw [hstage]
  cases stepped with
  | true => rfl
  | false =>
    have hat : Cursor.at? program.bytes pass.asked.offset = .ok pass.place := by
      rw [hstands.place]
      exact program.at?_of_le hstands.offset_le
    dsimp only
    rw [Pass.trace_eq, Pass.next_of_place rfl hat hend]
    rfl

theorem atLast_prospect (hstands : pass.Stands program files) {stepped : Bool}
    (hstage : pass.stage = .executing stepped) (hend : pass.place.atEnd = true) :
    (pass.atLast stepped).prospect program files = pass.prospect program files := by
  have hfault := hstands.fault (by simp [hstage])
  have hat : Cursor.at? program.bytes pass.asked.offset = .ok pass.place := by
    rw [hstands.place]
    exact program.at?_of_le hstands.offset_le
  cases stepped with
  | true =>
    simp only [prospect, remaining, hstage, MachineState.run_of_atEnd hend]
    rfl
  | false =>
    simp only [prospect, remaining, hstage, Pass.trace_eq, Pass.next_of_end hat hend]
    simp only [atLast, Bool.false_eq_true, if_false, hfault]
    rfl

theorem after_prospect (hstands : pass.Stands program files) {stepped : Bool}
    (hstage : pass.stage = .executing stepped) (hend : pass.place.atEnd = false)
    {state : MachineState} {answer : Except LineError (Option Registers × Cursor)}
    (hstep : MachineState.step program.header.toParameters ⟨pass.registers, files⟩ pass.place =
      (state, answer)) :
    (pass.after state.registers answer).prospect program state.files =
      pass.prospect program files := by
  rw [prospect, prospect, remaining_of_place hstands hstage hend]
  rcases answer with e | ⟨row | row, next⟩
  · rw [MachineState.run_of_error hend hstep]
    rfl
  · rw [MachineState.run_of_silent hend hstep]
    -- The request begins at another place, which only a fault would show.
    rcases hrun : MachineState.run program.header.toParameters state next with
      ⟨later, e | ⟨row | row, last⟩⟩
    all_goals simp only [remaining, after, hrun]; rfl
  · rw [MachineState.run_of_row hend hstep]
    cases hnext : next.atEnd <;> simp only [remaining, after, hnext] <;> rfl

theorem completing_prospect (hstands : pass.Stands program files) {row : Registers}
    (hstage : pass.stage = .completing row) :
    ({ pass with stage := .resolving row } : SteppedPass).prospect program files.markComplete =
      pass.prospect program files := by
  have hend := hstands.completing row hstage
  simp only [prospect, remaining, hstage, Pass.finishRow, hend, if_true]
  rfl

theorem resolve_prospect (hstands : pass.Stands program files) {row : Registers}
    (hstage : pass.stage = .resolving row) :
    (pass.resolve files row).prospect program files = pass.prospect program files := by
  have hfiles : Pass.filesAfter files pass.place = files := by
    unfold Pass.filesAfter
    split_ifs with hend
    · have hcomplete := hstands.resolving row hstage hend
      rw [FileTable.markComplete, ← hcomplete]
    · rfl
  cases hfile : files.file? row.fileIndex with
  | none =>
    have hfinish : Pass.finishRow ⟨pass.registers, files⟩ row pass.place = _ :=
      Pass.finishRow_of_none _ hfile
    simp only [prospect, remaining, hstage, hfinish, hfiles, resolve, hfile]
    rfl
  | some file =>
    have hfinish : Pass.finishRow ⟨pass.registers, files⟩ row pass.place = _ :=
      Pass.finishRow_of_some _ hfile
    simp only [prospect, remaining, hstage, hfinish, hfiles, resolve, hfile]
    simp only [Advance.trace, Trace.rows, List.map_cons, List.append_assoc]
    rfl

/-- What a lone pass comes to is the same before and after each of its steps. -/
theorem step_prospect (hstands : pass.Stands program files) :
    (pass.step program files).2.prospect program (pass.step program files).1 =
      pass.prospect program files := by
  rw [step]
  cases hstage : pass.stage with
  | executing stepped =>
    dsimp only
    cases hend : pass.place.atEnd with
    | true =>
      rw [execute_of_end program hend]
      exact atLast_prospect hstands hstage hend
    | false =>
      rw [execute_of_place program hend]
      exact after_prospect hstands hstage hend rfl
  | completing row => exact completing_prospect hstands hstage
  | resolving row => exact resolve_prospect hstands hstage
  | ended => rfl

theorem Stands.step (hstands : pass.Stands program files) :
    (pass.step program files).2.Stands program (pass.step program files).1 := by
  rw [SteppedPass.step]
  cases hstage : pass.stage with
  | executing stepped =>
    dsimp only
    cases hend : pass.place.atEnd with
    | true =>
      rw [execute_of_end program hend, atLast]
      cases stepped <;> exact stands_of_ended rfl hstands.place hstands.offset_le
    | false =>
      have hfault := hstands.fault (by simp [hstage])
      rw [execute_of_place program hend]
      rcases hstep : MachineState.step program.header.toParameters ⟨pass.registers, files⟩
        pass.place with ⟨state, e | ⟨row, next⟩⟩
      · exact stands_of_ended rfl hstands.place hstands.offset_le
      · have hforward := (MachineState.step_lt _ _ hstep).1
        rw [hstands.place] at hforward
        have hplace := program.eq_cursorAt hforward
        have hle := program.offset_le_size hforward hstands.offset_le
        cases row with
        | none => exact stands_of_executing rfl hplace hle hfault
        | some row =>
          refine ⟨hplace, hle, fun _ => hfault, ?_, ?_⟩
          · intro other hother
            simp only [after] at hother ⊢
            split_ifs at hother with hnext
            exact hnext
          · intro other hother hnext
            simp only [after] at hother hnext
            rw [if_pos hnext] at hother
            cases hother
  | completing row =>
    have hfault := hstands.fault (by simp [hstage])
    refine ⟨hstands.place, hstands.offset_le, fun _ => hfault, fun other hother => ?_, ?_⟩
    · cases hother
    · intro _ _ _
      rfl
  | resolving row =>
    dsimp only [resolve]
    cases files.file? row.fileIndex with
    | none => exact stands_of_ended rfl hstands.place hstands.offset_le
    | some file =>
      have hfault := hstands.fault (by simp [hstage])
      exact stands_of_executing rfl hstands.place hstands.offset_le hfault
  | ended => exact hstands

/-- How many steps a pass makes at most before it ends. -/
def stepsLeft (pass : SteppedPass) : ℕ :=
  match pass.stage with
  | .executing _ => 3 * pass.place.rest.length + 1
  | .completing _ => 3 * pass.place.rest.length + 3
  | .resolving _ => 3 * pass.place.rest.length + 2
  | .ended => 0

theorem ended_of_stepsLeft (h : pass.stepsLeft = 0) : pass.stage = .ended := by
  unfold stepsLeft at h
  cases hstage : pass.stage with
  | ended => rfl
  | _ => simp [hstage] at h

theorem stepsLeft_step (program : LineProgram) (files : FileTable) (pass : SteppedPass) :
    (pass.step program files).2.stepsLeft ≤ pass.stepsLeft - 1 := by
  rw [step, stepsLeft.eq_def pass]
  cases hstage : pass.stage with
  | executing stepped =>
    dsimp only
    cases hend : pass.place.atEnd with
    | true =>
      rw [execute_of_end program hend, atLast]
      cases stepped <;> exact Nat.zero_le _
    | false =>
      rw [execute_of_place program hend]
      rcases hstep : MachineState.step program.header.toParameters ⟨pass.registers, files⟩
        pass.place with ⟨state, e | ⟨row, next⟩⟩
      · exact Nat.zero_le _
      · have hlt := Cursor.length_lt (MachineState.step_lt _ _ hstep)
        cases row with
        | none =>
          simp only [after, stepsLeft]
          omega
        | some row =>
          cases hnext : next.atEnd <;> simp only [after, stepsLeft, hnext] <;> grind
  | completing row => simp [stepsLeft]
  | resolving row =>
    dsimp only [resolve]
    cases files.file? row.fileIndex <;> simp [stepsLeft, fail]
  | ended => simp [stepsLeft, hstage]

end SteppedPass

namespace LineTable

variable (table : LineTable)

/-- The file table and the stepped pass after a number of steps that nothing else comes between. -/
def solo : ℕ → FileTable × SteppedPass
  | 0 => (table.files, .start table.program)
  | turns + 1 => (solo turns).2.step table.program (solo turns).1

theorem solo_covers {turns more : ℕ} (h : turns ≤ more) :
    (table.solo more).1.Covers (table.solo turns).1 := by
  induction more, h using Nat.le_induction with
  | base => exact .refl _
  | succ more _ ih => exact (SteppedPass.step_covers _ _ _).1.trans ih

variable {table}

theorem solo_of_ended {turns more : ℕ} (h : (table.solo turns).2.stage = .ended)
    (hmore : turns ≤ more) : table.solo more = table.solo turns := by
  induction more, hmore using Nat.le_induction with
  | base => rfl
  | succ more _ ih =>
    rw [solo, ih]
    exact SteppedPass.step_of_ended _ _ h _

theorem step_of_agrees {files : FileTable} {turns reached : ℕ}
    (hfiles : files.Agrees (table.solo reached).1) (hle : turns ≤ reached) :
    ((table.solo turns).2.step table.program files).2 = (table.solo (turns + 1)).2 ∧
      ((table.solo turns).2.step table.program files).1.Agrees
        (table.solo (max reached (turns + 1))).1 := by
  rcases hle.eq_or_lt with rfl | hlt
  · rw [max_eq_right (Nat.le_succ turns)]
    exact SteppedPass.step_agrees _ _ hfiles
  · rw [max_eq_left hlt]
    have hcovers := hfiles.covers.trans (table.solo_covers hlt)
    have hagrees (hended : (table.solo (turns + 1)).2.stage = .ended) :
        files.Agrees (table.solo (turns + 1)).1 := by
      rw [solo_of_ended hended hlt] at hfiles
      exact hfiles
    obtain ⟨hpass, hstays⟩ := SteppedPass.step_covered table.program _ hcovers hagrees
    exact ⟨hpass, hstays.trans hfiles⟩

section

variable (h : table.program.header.programOffset ≤ table.size)
include h

theorem solo_stands (turns : ℕ) :
    (table.solo turns).2.Stands table.program (table.solo turns).1 := by
  induction turns with
  | zero => exact SteppedPass.start_stands h _
  | succ turns ih => exact ih.step

/-- After any number of steps the lone pass comes to the rows, the fault and the files of the
table's trace. -/
theorem solo_prospect (turns : ℕ) :
    (table.solo turns).2.prospect table.program (table.solo turns).1 =
      (table.trace.rows, table.trace.fault, table.trace.files) := by
  induction turns with
  | zero => rfl
  | succ turns ih => exact (SteppedPass.step_prospect (solo_stands h turns)).trans ih

end

theorem solo_ended (table : LineTable) {turns : ℕ} (h : 3 * table.size + 1 ≤ turns) :
    (table.solo turns).2.stage = .ended := by
  have hleft (turns : ℕ) : (table.solo turns).2.stepsLeft ≤ 3 * table.size + 1 - turns := by
    induction turns with
    | zero =>
      simp [solo, SteppedPass.stepsLeft, SteppedPass.start, size, LineProgram.size]
    | succ turns ih =>
      have hstep :=
        SteppedPass.stepsLeft_step table.program (table.solo turns).1 (table.solo turns).2
      rw [solo]
      omega
  have hzero := hleft turns
  apply SteppedPass.ended_of_stepsLeft
  omega

theorem solo_rows (h : table.program.header.programOffset ≤ table.size) (turns : ℕ) :
    (table.solo turns).2.rows <+: table.trace.rows := by
  have hrows : (table.solo turns).2.rows ++ _ = table.trace.rows :=
    congrArg Prod.fst (solo_prospect h turns)
  rw [← hrows]
  exact List.prefix_append _ _

theorem prospect_of_ended {files : FileTable} {pass : SteppedPass} (h : pass.stage = .ended) :
    pass.prospect table.program files = (pass.rows, pass.fault, files) := by
  unfold SteppedPass.prospect SteppedPass.remaining
  rw [h]
  simp [Trace.rows]

theorem solo_files_isPrefix (h : table.program.header.programOffset ≤ table.size) (turns : ℕ) :
    (table.solo turns).1.files <+: table.trace.files.files := by
  let more := max turns (3 * table.size + 1)
  have hended := table.solo_ended (le_max_right turns (3 * table.size + 1))
  have hlast := solo_prospect h more
  rw [prospect_of_ended hended] at hlast
  have hfiles : (table.solo more).1 = table.trace.files := congrArg (·.2.2) hlast
  rw [← hfiles]
  exact (table.solo_covers (le_max_left turns (3 * table.size + 1))).files

end LineTable

namespace Interleaving

variable {table : LineTable} {running : Interleaving} {schedule : List ℕ} {reached : ℕ}

/-- What holds of passes that have followed a schedule from the start: the shared file table is one
that the lone pass meets, no pass is ahead of it, and each pass stands where the lone pass stood
after as many turns. -/
structure Keeps (table : LineTable) (schedule : List ℕ) (reached : ℕ) (running : Interleaving) :
    Prop where
  files : running.files.Agrees (table.solo reached).1
  passes : ∀ number pass, running.passes[number]? = some pass →
    schedule.count number ≤ reached ∧ pass = (table.solo (schedule.count number)).2

theorem start_keeps (table : LineTable) (count : ℕ) : (start table count).Keeps table [] 0 := by
  refine ⟨.refl _, fun number pass hpass => ⟨le_rfl, ?_⟩⟩
  exact List.eq_of_mem_replicate (List.mem_of_getElem? hpass)

theorem Keeps.step (h : running.Keeps table schedule reached) (number : ℕ) :
    ∃ more, (running.step table.program number).Keeps table (schedule ++ [number]) more := by
  have hcount (other : ℕ) : (schedule ++ [number]).count other =
      schedule.count other + if number = other then 1 else 0 := by
    rw [List.count_append, List.count_singleton]
    simp
  unfold Interleaving.step
  cases hpass : running.passes[number]? with
  | none =>
    refine ⟨reached, h.files, fun other pass hother => ?_⟩
    rw [hcount, if_neg (by rintro rfl; simp [hpass] at hother)]
    exact h.passes other pass hother
  | some pass =>
    obtain ⟨hle, rfl⟩ := h.passes number pass hpass
    obtain ⟨hnext, hfiles⟩ := LineTable.step_of_agrees h.files hle
    refine ⟨_, hfiles, fun other pass hother => ?_⟩
    rw [hcount]
    simp only [List.getElem?_set] at hother
    split_ifs at hother with hsame hlt
    · subst hsame
      rw [if_pos rfl]
      exact ⟨le_max_right _ _, (Option.some.inj hother).symm.trans hnext⟩
    · obtain ⟨hother, hstands⟩ := h.passes other pass hother
      rw [if_neg hsame]
      exact ⟨hother.trans (le_max_left _ _), hstands⟩

theorem run_append (program : LineProgram) (running : Interleaving) (schedule more : List ℕ) :
    running.run program (schedule ++ more) = (running.run program schedule).run program more :=
  List.foldl_append

theorem exists_keeps (table : LineTable) (count : ℕ) (schedule : List ℕ) :
    ∃ reached, ((start table count).run table.program schedule).Keeps table schedule reached := by
  induction schedule using List.reverseRecOn with
  | nil => exact ⟨0, start_keeps table count⟩
  | append_singleton schedule number ih =>
    obtain ⟨reached, hkept⟩ := ih
    rw [run_append]
    exact hkept.step number

theorem run_covers (program : LineProgram) (running : Interleaving) (schedule : List ℕ) :
    (running.run program schedule).files.Covers running.files ∧
      (running.files.complete = true → (running.run program schedule).files.complete = true) ∧
      (running.run program schedule).passes.length = running.passes.length := by
  induction schedule using List.reverseRecOn with
  | nil => exact ⟨.refl _, id, rfl⟩
  | append_singleton schedule number ih =>
    obtain ⟨hcovers, hstays, hlength⟩ := ih
    rw [run_append]
    generalize running.run program schedule = later at hcovers hstays hlength ⊢
    change (later.step program number).files.Covers _ ∧ _ ∧ _
    simp only [run, List.foldl_cons, List.foldl_nil, step]
    cases later.passes[number]? with
    | none => exact ⟨hcovers, hstays, hlength⟩
    | some pass =>
      obtain ⟨hmore, hkeeps⟩ := pass.step_covers program later.files
      exact ⟨hmore.trans hcovers, fun h => hkeeps (hstays h), by simpa using hlength⟩

theorem exists_pass (table : LineTable) {count number : ℕ} (h : number < count)
    (schedule : List ℕ) :
    ((start table count).run table.program schedule).passes[number]? =
      some (table.solo (schedule.count number)).2 := by
  obtain ⟨reached, hkept⟩ := exists_keeps table count schedule
  obtain ⟨-, -, hlength⟩ := run_covers table.program (start table count) schedule
  rw [start, List.length_replicate] at hlength
  rw [← start] at hlength
  have hpass := List.getElem?_eq_getElem (hlength.symm ▸ h)
  rw [hpass, (hkept.passes number _ hpass).2]

/-- The shared files are the header's and then as many declarations as some number of turns of the
lone pass takes. -/
theorem files_of_run (table : LineTable)
    (h : table.program.header.programOffset ≤ table.size) (count : ℕ) (schedule : List ℕ) :
    let running := (start table count).run table.program schedule
    running.files.files = table.files.files ++
        table.declared.take (running.files.files.length - table.files.files.length) ∧
      running.files.files.length - table.files.files.length ≤ table.declared.length := by
  intro running
  obtain ⟨reached, hkept⟩ := exists_keeps table count schedule
  replace hkept : running.Keeps table schedule reached := hkept
  have hcovers := hkept.files.covers.trans (table.solo_covers (Nat.zero_le reached))
  have hbegins : running.files.files <+: table.trace.files.files := by
    rw [hkept.files.files]
    exact LineTable.solo_files_isPrefix h reached
  exact ⟨LineTable.files_eq_of_isPrefix hcovers hbegins,
    LineTable.length_sub_le_of_isPrefix hbegins⟩

end Interleaving

namespace LineTable

open Interleaving

/-- Whatever the order in which passes over one table make their steps, the files known are at all
times the header's and then the first declarations of an uninterrupted pass, of which none is taken
back, and neither is completeness. Every pass gives the rows of the uninterrupted pass with the same
files, and ends as that does, which takes it a bounded number of its own steps. -/
theorem rows_of_every_schedule {order : ByteOrder} {lines : List UInt8} {offset : ℕ}
    {context : UnitContext} {table : LineTable}
    (hparse : parse order lines offset context = .ok table) (count : ℕ) (schedule : List ℕ) :
    let running := (Interleaving.start table count).run table.program schedule
    (∃ known ≤ table.declared.length,
      running.files.files = table.files.files ++ table.declared.take known ∧
      ∀ more, ∃ later ≤ table.declared.length, known ≤ later ∧
        (running.run table.program more).files.files =
          table.files.files ++ table.declared.take later) ∧
    (running.files.complete = true →
      ∀ more, (running.run table.program more).files.complete = true) ∧
    ∀ number < count, ∃ pass, running.passes[number]? = some pass ∧
      pass.rows <+: table.trace.rows ∧
      (pass.stage ≠ .ended → pass.fault = none) ∧
      (pass.stage = .ended → pass.rows = table.trace.rows ∧ pass.fault = table.trace.fault) ∧
      (3 * table.size + 1 ≤ schedule.count number → pass.stage = .ended) := by
  intro running
  obtain ⟨haccepted, -⟩ := fresh_of_parse hparse
  have hprogram : table.program.header.programOffset ≤ table.size := haccepted.programOffset_le
  refine ⟨?_, fun h more => (run_covers table.program running more).2.1 h, ?_⟩
  · obtain ⟨hfiles, hknown⟩ := files_of_run table hprogram count schedule
    refine ⟨_, hknown, hfiles, fun more => ?_⟩
    have hcovers := (run_covers table.program running more).1
    obtain ⟨hlater, hle⟩ := files_of_run table hprogram count (schedule ++ more)
    rw [run_append] at hlater hle
    exact ⟨_, hle, Nat.sub_le_sub_right hcovers.files.length_le _, hlater⟩
  · intro number hnumber
    have hstands := solo_stands hprogram (schedule.count number)
    refine ⟨_, exists_pass table hnumber schedule, solo_rows hprogram _, hstands.fault, ?_,
      table.solo_ended⟩
    intro hended
    have hlast := solo_prospect hprogram (schedule.count number)
    rw [prospect_of_ended hended, Prod.mk.injEq, Prod.mk.injEq] at hlast
    exact ⟨hlast.1, hlast.2.1⟩

/-- Two passes over a unit with one late file: the first declares the file and is overtaken by the
second, which gives the row that uses it. -/
theorem rows_of_overtaking_pass :
    ∃ table pass, LineTable.parse .little
        [26, 0, 0, 0, 2, 0, 8, 0, 0, 0, 1, 1, 0, 1, 2, 0, 0, 0,
          0, 6, 3, 97, 0, 0, 0, 0, 1, 0, 1, 1] 0 { compDir := "/", name := "u" } = .ok table ∧
      ((Interleaving.start table 2).run table.program [0, 1, 1, 1]).passes[1]? = some pass ∧
      pass.rows.map (·.file) = [{ path := "/a", directoryIndex := 0 }] ∧
      pass.rows <+: table.trace.rows := by
  have hknown : (LineTable.parse .little
      [26, 0, 0, 0, 2, 0, 8, 0, 0, 0, 1, 1, 0, 1, 2, 0, 0, 0,
        0, 6, 3, 97, 0, 0, 0, 0, 1, 0, 1, 1] 0 { compDir := "/", name := "u" }).map
        (fun table => ((Interleaving.start table 2).run table.program [0, 1, 1, 1]).passes[1]?.map
          (·.rows.map (·.file))) =
      .ok (some [{ path := "/a", directoryIndex := 0 }]) := by
    decide +kernel
  obtain ⟨table, hparse, hknown⟩ := exists_of_map_eq_ok hknown
  obtain ⟨-, -, hpasses⟩ := rows_of_every_schedule hparse 2 [0, 1, 1, 1]
  obtain ⟨pass, hpass, hrows, -⟩ := hpasses 1 (by decide)
  rw [hpass] at hknown
  exact ⟨table, pass, hparse, hpass, Option.some.inj hknown, hrows⟩

end LineTable
end DwarfLines
