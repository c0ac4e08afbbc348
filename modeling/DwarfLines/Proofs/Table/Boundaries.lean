import Mathlib
import DwarfLines.Proofs.Machine.Boundaries
import DwarfLines.Proofs.Machine.Extent
import DwarfLines.Proofs.Table.LateRecords
import DwarfLines.Proofs.Table.Schedules

/-!
# Passes find the same instructions

Passes that share a file table may be begun, copied and given up at any time, and make their steps in
any order. Whatever the others have made of the file table, a pass finds an instruction where the
bytes alone say that one begins, ends it where they say it ends, and gives a row if they say so. Two
facts carry this through every step: passes stand where the bytes say that instructions begin, and
the file table has gone past such a place only if no record is refused there.
-/

namespace DwarfLines

open MachineState (Leads Settled boundary outline)

/-- A place of a program where its bytes, read from the beginning on, say that an instruction
begins. -/
def LineProgram.Boundary (program : LineProgram) (place : Cursor) : Prop :=
  Relation.ReflTransGen (Leads program.header.toParameters) program.beginning place

variable {program : LineProgram} {files : FileTable}

theorem LineProgram.Boundary.eq_cursorAt {place : Cursor} (h : program.Boundary place) :
    place = program.cursorAt place.offset :=
  program.eq_cursorAt (MachineState.le_of_leads h)

/-- A file table goes past an instruction of a program only where every machine does the same. -/
def FileTable.TrueTo (program : LineProgram) (files : FileTable) : Prop :=
  ∀ place, program.Boundary place →
    files.definedThrough ≤ place.offset ∨ Settled program.header.toParameters place

namespace FileTable.TrueTo

theorem of_agrees {other : FileTable} (h : files.TrueTo program) (hagrees : other.Agrees files) :
    other.TrueTo program := by
  intro place hplace
  rw [hagrees.definedThrough]
  exact h place hplace

/-- A step of any machine keeps the file table true, and ends where the bytes say. -/
theorem step (h : files.TrueTo program) {place : Cursor} (hplace : program.Boundary place)
    (registers : Registers) :
    let ran := MachineState.step program.header.toParameters ⟨registers, files⟩ place
    ran.1.files.TrueTo program ∧
      ∀ row last, ran.2 = .ok (row, last) → program.Boundary last := by
  intro ran
  constructor
  · intro other hother
    rcases MachineState.step_definedThrough ⟨registers, files⟩ place with
      hsame | ⟨hsettled, hlast⟩
    · exact (h other hother).imp_left hsame.trans_le
    · -- The bytes lead from the one place to the other, or the other way round.
      rcases hplace.total_of_right_unique MachineState.rightUnique_leads hother with
        hbehind | hbefore
      · rcases hbehind.cases_head with rfl | ⟨next, ⟨row, hnext⟩, hmore⟩
        · exact .inr hsettled
        · have hpast := Cursor.offset_le (MachineState.le_of_leads hmore)
          exact .inl ((hlast row next hnext).trans hpast)
      · rcases hbefore.cases_head with rfl | ⟨next, ⟨row, hnext⟩, -⟩
        · exact .inr hsettled
        · exact .inr (MachineState.settled_of_boundary hnext)
  · intro row last hanswer
    have houtline := MachineState.outline_step (h place hplace) registers
    rw [hanswer] at houtline
    exact hplace.tail ⟨_, houtline.symm⟩

end FileTable.TrueTo

/-- A step of a pass keeps the file table true and leads the pass to where an instruction begins. -/
theorem SteppedPass.step_boundary {pass : SteppedPass} (h : files.TrueTo program)
    (hplace : program.Boundary pass.place) :
    (pass.step program files).1.TrueTo program ∧
      program.Boundary (pass.step program files).2.place := by
  unfold SteppedPass.step
  cases pass.stage with
  | executing stepped =>
    cases hend : pass.place.atEnd with
    | true =>
      simp only [execute_of_end program hend]
      refine ⟨h, ?_⟩
      cases stepped <;> exact hplace
    | false =>
      simp only [execute_of_place program hend]
      obtain ⟨hfiles, hlast⟩ := h.step hplace pass.registers
      refine ⟨hfiles, ?_⟩
      rcases hstep : MachineState.step program.header.toParameters ⟨pass.registers, files⟩
        pass.place with ⟨state, e | ⟨row | row, next⟩⟩
      · exact hplace
      · exact hlast none next (by rw [hstep])
      · exact hlast (some row) next (by rw [hstep])
  | completing row => exact ⟨h.of_agrees files.markComplete_agrees, hplace⟩
  | resolving row =>
    refine ⟨h, ?_⟩
    dsimp only [resolve]
    cases files.file? row.fileIndex <;> exact hplace
  | ended => exact ⟨h, hplace⟩

namespace Interleaving

/-- What the passes over a table come to. Passes are begun, copied, given up and led on by single
steps, as many of them and in whatever order. A pass that is made only to find late declarations is
counted before it begins, and one that reached its end makes the file table complete. -/
inductive Reachable (table : LineTable) : Interleaving → Prop
  | fresh : Reachable table { files := table.files, passes := [] }
  | begin {running : Interleaving} (h : Reachable table running) :
    Reachable table { running with passes := .start table.program :: running.passes }
  | copy {running : Interleaving} (h : Reachable table running) {pass : SteppedPass}
    (hpass : pass ∈ running.passes) :
    Reachable table { running with passes := pass :: running.passes }
  | giveUp {running : Interleaving} (h : Reachable table running) (number : ℕ) :
    Reachable table { running with passes := running.passes.eraseIdx number }
  | step {running : Interleaving} (h : Reachable table running) (number : ℕ) :
    Reachable table (running.step table.program number)
  | countScan {running : Interleaving} (h : Reachable table running) :
    Reachable table { running with files := running.files.recordFullScan }
  | finishScan {running : Interleaving} (h : Reachable table running) {pass : SteppedPass}
    (hpass : pass ∈ running.passes) (hended : pass.stage = .ended) (hplain : pass.fault = none) :
    Reachable table { running with files := running.files.markComplete }

/-- Whether a pass has arrived at an offset and is about to execute the instruction there. -/
def StandsAt (running : Interleaving) (offset : ℕ) : Prop :=
  ∃ pass ∈ running.passes, (∃ stepped, pass.stage = .executing stepped) ∧
    pass.place.offset = offset

variable {table : LineTable} {running : Interleaving}

theorem Reachable.run (h : Reachable table running) (schedule : List ℕ) :
    Reachable table (running.run table.program schedule) := by
  induction schedule generalizing running with
  | nil => exact h
  | cons number rest ih => exact ih (h.step number)

theorem reachable_start (table : LineTable) (count : ℕ) : Reachable table (start table count) := by
  induction count with
  | zero => exact .fresh
  | succ count ih => exact ih.begin

/-- What passes come to is true to the program, and each of them stands where an instruction
begins. -/
theorem Reachable.trueTo (hfresh : table.files.definedThrough = 0)
    (h : Reachable table running) :
    running.files.TrueTo table.program ∧
      ∀ pass ∈ running.passes, table.program.Boundary pass.place := by
  induction h with
  | fresh =>
    refine ⟨fun place _ => .inl ?_, by simp⟩
    exact hfresh.trans_le (Nat.zero_le _)
  | begin h ih =>
    refine ⟨ih.1, fun pass hpass => ?_⟩
    rcases List.mem_cons.mp hpass with rfl | hpass
    · exact .refl
    · exact ih.2 pass hpass
  | copy h hcopied ih =>
    refine ⟨ih.1, fun pass hpass => ?_⟩
    rcases List.mem_cons.mp hpass with rfl | hpass
    · exact ih.2 _ hcopied
    · exact ih.2 pass hpass
  | giveUp h number ih => exact ⟨ih.1, fun pass hpass => ih.2 pass (List.mem_of_mem_eraseIdx hpass)⟩
  | @step running h number ih =>
    unfold Interleaving.step
    cases hpass : running.passes[number]? with
    | none => exact ih
    | some pass =>
      obtain ⟨hfiles, hplace⟩ :=
        SteppedPass.step_boundary ih.1 (ih.2 pass (List.mem_of_getElem? hpass))
      refine ⟨hfiles, fun other hother => ?_⟩
      rcases List.mem_or_eq_of_mem_set hother with hother | rfl
      · exact ih.2 other hother
      · exact hplace
  | countScan h ih => exact ⟨ih.1.of_agrees (FileTable.recordFullScan_agrees _), ih.2⟩
  | finishScan h hpass hended hplain ih =>
    exact ⟨ih.1.of_agrees (FileTable.markComplete_agrees _), ih.2⟩

end Interleaving

namespace LineTable

open Interleaving

/-- Wherever a pass arrives, the machine makes the same of the instruction there on any two file
tables that passes come to and with any registers. It fails with the same error, or it goes to the
same place and gives a row in both cases or in neither. That place is as far away as the bytes of
the instruction say. -/
theorem steps_alike_at_offset {order : ByteOrder} {lines : List UInt8} {start : ℕ}
    {context : UnitContext} {table : LineTable}
    (hparse : parse order lines start context = .ok table)
    {arrived first second : Interleaving} (harrived : Reachable table arrived)
    (hfirst : Reachable table first) (hsecond : Reachable table second) {offset : ℕ}
    (hstands : arrived.StandsAt offset) (registers other : Registers) :
    let parameters := table.program.header.toParameters
    let place := table.program.cursorAt offset
    let answer := (MachineState.step parameters ⟨registers, first.files⟩ place).2
    let again := (MachineState.step parameters ⟨other, second.files⟩ place).2
    (∃ e, answer = .error e ∧ again = .error e) ∨
    ∃ row row', row.isSome = row'.isSome ∧
      let last := table.program.cursorAt (offset + Instruction.extent parameters place.rest)
      answer = .ok (row, last) ∧ again = .ok (row', last) := by
  intro parameters place answer again
  obtain ⟨-, hfresh⟩ := accepted_of_parse hparse
  obtain ⟨pass, hpass, -, rfl⟩ := hstands
  have hplace := (harrived.trueTo hfresh).2 pass hpass
  have heq : pass.place = place := hplace.eq_cursorAt
  rw [heq] at hplace
  have hanswer : outline answer = boundary parameters place :=
    MachineState.outline_step ((hfirst.trueTo hfresh).1 place hplace) registers
  have hagain : outline again = boundary parameters place :=
    MachineState.outline_step ((hsecond.trueTo hfresh).1 place hplace) other
  rcases hboundary : boundary parameters place with e | ⟨gives, last⟩
  · left
    rw [hboundary] at hanswer hagain
    exact ⟨e, MachineState.error_of_outline hanswer, MachineState.error_of_outline hagain⟩
  · right
    have hlast := LineProgram.Boundary.eq_cursorAt (hplace.tail ⟨gives, hboundary⟩)
    rw [hboundary] at hanswer hagain
    obtain ⟨row, hrow, hgives⟩ := MachineState.exists_of_outline hanswer
    obtain ⟨row', hrow', hgives'⟩ := MachineState.exists_of_outline hagain
    have hoffset := MachineState.offset_of_step (Prod.ext rfl hrow)
    rw [hoffset] at hlast
    refine ⟨row, row', hgives.trans hgives'.symm, ?_⟩
    exact ⟨hlast ▸ hrow, hlast ▸ hrow'⟩

/-- A unit whose program begins with a file declaration. One pass is about to take it, and another
one stands there after a third has taken it. Both go on behind its eight bytes, the first with a new
file and the second without. -/
theorem steps_alike_at_late_file :
    ∃ table, LineTable.parse .little
        [26, 0, 0, 0, 2, 0, 8, 0, 0, 0, 1, 1, 0, 1, 2, 0, 0, 0,
          0, 6, 3, 97, 0, 0, 0, 0, 1, 0, 1, 1] 0 { compDir := "/", name := "u" } = .ok table ∧
      let parameters := table.program.header.toParameters
      let first := start table 1
      let second := (start table 2).run table.program [0]
      let place := table.program.cursorAt 18
      let ran := MachineState.step parameters ⟨.initial true, first.files⟩ place
      let again := MachineState.step parameters
        ⟨{ Registers.initial false with line := -7, isa := 3 }, second.files⟩ place
      (Reachable table first ∧ first.StandsAt 18) ∧ (Reachable table second ∧ second.StandsAt 18) ∧
      ran.1.files.files.length = first.files.files.length + 1 ∧
      again.1.files.files.length = second.files.files.length ∧
      ∃ row row', row.isSome = row'.isSome ∧
        ran.2 = .ok (row, table.program.cursorAt 26) ∧
        again.2 = .ok (row', table.program.cursorAt 26) := by
  have hknown : (LineTable.parse .little
      [26, 0, 0, 0, 2, 0, 8, 0, 0, 0, 1, 1, 0, 1, 2, 0, 0, 0,
        0, 6, 3, 97, 0, 0, 0, 0, 1, 0, 1, 1] 0 { compDir := "/", name := "u" }).map
        (fun table =>
          let parameters := table.program.header.toParameters
          let first := start table 1
          let second := (start table 2).run table.program [0]
          let place := table.program.cursorAt 18
          let ran := MachineState.step parameters ⟨.initial true, first.files⟩ place
          let again := MachineState.step parameters
            ⟨{ Registers.initial false with line := -7, isa := 3 }, second.files⟩ place
          decide (table.program.header.programOffset = 18 ∧
            Instruction.extent parameters place.rest = 8 ∧ ran.2.isOk = true ∧
            ran.1.files.files.length = first.files.files.length + 1 ∧
            again.1.files.files.length = second.files.files.length)) = .ok true := by
    decide +kernel
  obtain ⟨table, hparse, hfacts⟩ := exists_of_map_eq_ok hknown
  obtain ⟨hoffset, hextent, hok, hgrown, hsame⟩ := of_decide_eq_true hfacts
  have hfirst := reachable_start table 1
  have hsecond := (reachable_start table 2).run [0]
  have hstart : (start table 1).StandsAt 18 :=
    ⟨_, List.mem_singleton_self _, ⟨false, rfl⟩, hoffset⟩
  have hbehind : ((start table 2).run table.program [0]).StandsAt 18 :=
    ⟨_, List.mem_cons_of_mem _ (List.mem_singleton_self _), ⟨false, rfl⟩, hoffset⟩
  refine ⟨table, hparse, ⟨hfirst, hstart⟩, ⟨hsecond, hbehind⟩, hgrown, hsame, ?_⟩
  rcases steps_alike_at_offset hparse hfirst hfirst hsecond hstart (.initial true)
    { Registers.initial false with line := -7, isa := 3 } with ⟨e, he, -⟩ | halike
  · rw [he] at hok
    cases hok
  · rw [hextent] at halike
    exact halike

end LineTable
end DwarfLines
