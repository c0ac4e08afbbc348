import Mathlib
import DwarfLines.Proofs.Machine.RewrittenFiles
import DwarfLines.Proofs.Table.LateFiles
import DwarfLines.Proofs.Table.RewrittenPrograms

/-!
# The files that passes over a program written anew leave

The machine runs once for each request of a pass, so what is known of the files that two runs leave
is known of requests, of what is left of a pass, and of whole passes. Where passes over two programs
leave different files, the one that lacks a file belongs to the longer program.
-/

namespace DwarfLines

theorem Course.EndOf.refl (course : Course) : course.EndOf course :=
  ⟨fun _ _ => id, rfl, fun _ => id⟩

namespace Pass

open MachineState (Faithful)

def requestCourse (program : LineProgram) (files : FileTable) (pass : Pass) : Course where
  steps := program.Makes [(files, pass)]
  files := (pass.next program files).files.files
  failed e := (pass.next program files).answer = some (.error e)

def course (program : LineProgram) (files : FileTable) (pass : Pass) : Course where
  steps := program.Makes ((pass.trace program files).requests files pass)
  files := (pass.trace program files).files.files
  failed e := (pass.trace program files).fault = some e

theorem conclude_of_error (pass : Pass)
    {result : MachineState × Except LineError (Option Registers × Cursor)} {e : LineError}
    (h : result.2 = .error e) : (pass.conclude result).answer = some (.error e) := by
  obtain ⟨state, _⟩ := result
  cases h
  rfl

theorem course_endOf_request (program : LineProgram) (files : FileTable) (pass : Pass) {c : Cursor}
    (hfailed : pass.failed = false)
    (hat : Cursor.at? program.bytes pass.offset = .ok c) (hend : c.atEnd = false) :
    (MachineState.course program.header.toParameters ⟨pass.registers, files⟩ c).EndOf
      (pass.requestCourse program files) where
  steps _ _ hvisits := ⟨_, List.mem_singleton_self _, hfailed, c, hat, hvisits⟩
  files := by
    rw [requestCourse, next_of_place hfailed hat hend]
    exact (conclude_files _ _).files
  failed e he := by
    rw [requestCourse, next_of_place hfailed hat hend]
    exact conclude_of_error pass he

variable {write : ℕ → Instruction → List UInt8 → List UInt8} {program whole : LineProgram}
  {files other : FileTable} {pass : Pass} {start : ℕ}

theorem FoundAnew.next_leaves (h : FoundAnew write (· = ·) program whole files other pass start)
    (hwrite : Faithful program.header.toParameters write) :
    LeftAlike program.header.toParameters (pass.requestCourse program files)
      (requestCourse whole other { registers := pass.registers, offset := start }) := by
  have hown := program.at?_of_le h.offset_le
  have hcopy := whole.at?_of_le h.start_le
  have hends := h.rewritten.atEnd_iff hwrite fun _ => rfl
  by_cases hend : (program.cursorAt pass.offset).atEnd = true
  · have hfiles : files.files = other.files := List.forall₂_eq_eq_eq ▸ h.rewritten.files
    refine .same ?_
    rw [requestCourse, requestCourse, next_of_end hown hend, next_of_end hcopy (hends.trans hend)]
    exact hfiles.symm
  · replace hend := Bool.eq_false_iff.mpr hend
    have hcourse := course_endOf_request whole other
      { registers := pass.registers, offset := start } rfl hcopy (hends.trans hend)
    rw [h.parameters] at hcourse
    exact (h.rewritten.run_leaves hwrite).mono
      (course_endOf_request program files pass h.failed hown hend) hcourse

theorem requestCourse_endOf (h : ∀ row, (pass.next program files).answer ≠ some (.ok row)) :
    (pass.requestCourse program files).EndOf (pass.course program files) where
  steps := LineProgram.Makes.of_subset (by simp [Trace.requests])
  files := by
    rw [course, requestCourse, trace_eq, Advance.trace]
    split
    case h_3 row hanswer => exact absurd hanswer (h row)
    all_goals rfl
  failed e he := by
    replace he : (pass.next program files).answer = some (.error e) := he
    rw [course, trace_eq, Advance.trace, he]

theorem course_endOf_course {row : Row} (h : (pass.next program files).answer = some (.ok row)) :
    ((pass.next program files).pass.course program (pass.next program files).files).EndOf
      (pass.course program files) := by
  have htrace : pass.trace program files = _ := (trace_eq program files pass).trans
    (by rw [Advance.trace, h])
  rw [course, course, htrace]
  exact ⟨LineProgram.Makes.of_subset (List.subset_cons_self _ _), rfl, fun _ => id⟩

theorem FoundAnew.trace_leaves (h : FoundAnew write (· = ·) program whole files other pass start)
    (hwrite : Faithful program.header.toParameters write) :
    LeftAlike program.header.toParameters (pass.course program files)
      (course whole other { registers := pass.registers, offset := start }) := by
  induction hleft : program.size - pass.offset using Nat.strong_induction_on
    generalizing files other pass start with
  | _ left ih =>
    rcases h.next hwrite fun _ => rfl with ⟨hown, hcopy⟩ | ⟨e, later, hown, hcopy⟩ |
      ⟨row, file, place, hown, hcopy, -, hpass, hfound⟩
    · exact (h.next_leaves hwrite).mono (requestCourse_endOf (by simp [hown]))
        (requestCourse_endOf (by simp [hcopy]))
    · exact (h.next_leaves hwrite).mono (requestCourse_endOf (by simp [hown]))
        (requestCourse_endOf (by simp [hcopy]))
    · have hoffset := next_offset hown
      have hrest := course_endOf_course hcopy
      rw [hpass] at hrest
      exact (ih _ (by omega) hfound rfl).mono (course_endOf_course hown) hrest

end Pass

theorem LineProgram.Makes.limit {program : LineProgram} {requests : List (FileTable × Pass)}
    {state : MachineState} {place : Cursor} (h : program.Makes requests state place) :
    place.offset + place.rest.length = program.size := by
  obtain ⟨request, -, -, c, hat, hvisits⟩ := h
  obtain ⟨hle, rfl⟩ := Reader.at?_eq_ok.1 hat
  rw [Cursor.offset_add_length hvisits.le]
  exact program.limit_cursorAt hle

/-- What stands further behind with the same rest stands in a longer program. -/
theorem RefusedApart.size_lt {parameters : Parameters} {program whole : LineProgram}
    {files other : FileTable} {pass copy : Pass} {entry : FileEntry}
    (h : RefusedApart parameters (pass.course program files) (copy.course whole other) entry) :
    program.size < whole.size := by
  obtain ⟨hsteps, -, -, -, -, hothers, hrest, hlt, -, -⟩ := h
  have hown := LineProgram.Makes.limit hsteps
  have hother := LineProgram.Makes.limit hothers
  rw [hrest] at hother
  omega

theorem RefusedApart.failed {parameters : Parameters} {program : LineProgram} {files : FileTable}
    {pass : Pass} {other : Course} {entry : FileEntry}
    (h : RefusedApart parameters (pass.course program files) other entry) :
    (pass.trace program files).fault ≠ none := by
  obtain ⟨-, -, -, -, hfailed, -⟩ := h
  exact Option.ne_none_iff_exists'.mpr ⟨_, hfailed⟩

def LineTable.course (table : LineTable) : Course :=
  (Pass.start table.program).course table.program table.files

end DwarfLines
