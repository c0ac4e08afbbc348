import Mathlib
import DwarfLines.Proofs.Table.LonePass

/-!
# What one request of a pass does

A request that gives a row has run instructions from the place of the pass to the end of the row,
and knows the file of the row. A request that gives nothing was made by a pass that is finished.
-/

namespace DwarfLines

def LineProgram.cursorAt (program : LineProgram) (offset : ℕ) : Cursor :=
  ⟨offset, program.bytes.drop offset⟩

namespace LineProgram

variable (program : LineProgram)

theorem at?_of_le {offset : ℕ} (h : offset ≤ program.size) :
    Cursor.at? program.bytes offset = .ok (program.cursorAt offset) :=
  Reader.at?_eq_ok.2 ⟨h, rfl⟩

theorem atEnd_cursorAt {offset : ℕ} :
    (program.cursorAt offset).atEnd = true ↔ program.size ≤ offset := by
  simp [cursorAt, Cursor.atEnd, size]

theorem limit_cursorAt {offset : ℕ} (h : offset ≤ program.size) :
    (program.cursorAt offset).offset + (program.cursorAt offset).rest.length = program.size := by
  simp only [cursorAt, List.length_drop, size] at h ⊢
  omega

theorem eq_cursorAt {offset : ℕ} {last : Cursor} (h : program.cursorAt offset ≤ last) :
    last = program.cursorAt last.offset := by
  obtain ⟨taken, hrest, hoffset⟩ := h
  obtain ⟨lastOffset, rest⟩ := last
  obtain rfl : lastOffset = offset + taken.length := hoffset
  replace hrest : program.bytes.drop offset = taken ++ rest := hrest
  rw [cursorAt, ← List.drop_drop, hrest, List.drop_left]

theorem offset_le_size {offset : ℕ} {last : Cursor} (h : program.cursorAt offset ≤ last)
    (hle : offset ≤ program.size) : last.offset ≤ program.size := by
  have hsum := Cursor.offset_add_length h
  simp only [cursorAt, List.length_drop, size] at hsum hle ⊢
  omega

end LineProgram

namespace Pass

variable {program : LineProgram} {files : FileTable} {pass : Pass} {row : Row}

/-- A request that gives a row: what it runs, where that ends and the file it finds. -/
structure GivesRow (program : LineProgram) (files : FileTable) (pass : Pass) (row : Row)
    (state : MachineState) (last : ℕ) : Prop where
  failed : pass.failed = false
  offset_le : pass.offset ≤ program.size
  run : MachineState.run program.header.toParameters ⟨pass.registers, files⟩
    (program.cursorAt pass.offset) = (state, .ok (some row.registers, program.cursorAt last))
  file : state.files.file? row.registers.fileIndex = some row.file

theorem GivesRow.offset_lt {state : MachineState} {last : ℕ}
    (h : GivesRow program files pass row state last) :
    pass.offset < last ∧ last ≤ program.size := by
  have hlt := MachineState.run_lt h.run
  exact ⟨hlt.2, program.offset_le_size hlt.1 h.offset_le⟩

theorem GivesRow.not_atEnd {state : MachineState} {last : ℕ}
    (h : GivesRow program files pass row state last) :
    (program.cursorAt pass.offset).atEnd = false := by
  have hlt := h.offset_lt
  rw [Bool.eq_false_iff, ne_eq, program.atEnd_cursorAt]
  omega

theorem GivesRow.next {state : MachineState} {last : ℕ}
    (h : GivesRow program files pass row state last) :
    next program files pass =
      { files := filesAfter state.files (program.cursorAt last)
        pass := { registers := state.registers, offset := last }
        answer := some (.ok row) } := by
  rw [next_of_place h.failed (program.at?_of_le h.offset_le) h.not_atEnd, h.run, conclude,
    finishRow_of_some _ h.file]
  rfl

theorem exists_givesRow (h : (next program files pass).answer = some (.ok row)) :
    ∃ state last, GivesRow program files pass row state last := by
  rcases next_cases program pass with
    ⟨after, answer, hno, -, -, hnext⟩ | ⟨c, hfailed, hat, -, hnext⟩
  · rw [hnext] at h
    exact absurd h (hno row)
  · obtain ⟨hle, rfl⟩ := Reader.at?_eq_ok.1 hat
    rw [hnext] at h
    rcases hrun : MachineState.run program.header.toParameters ⟨pass.registers, files⟩
        (program.cursorAt pass.offset) with ⟨state, e | ⟨registers | registers, last⟩⟩
    all_goals rw [LineProgram.cursorAt] at hrun; rw [hrun] at h
    · cases h
    · cases h
    · rw [conclude] at h
      cases hfile : state.files.file? registers.fileIndex with
      | none =>
        rw [finishRow_of_none _ hfile] at h
        cases h
      | some file =>
        rw [finishRow_of_some _ hfile] at h
        cases h
        have hlast := program.eq_cursorAt (MachineState.run_lt hrun).1
        exact ⟨state, last.offset, hfailed, hle, hlast ▸ hrun, hfile⟩

/-- A pass in the unit that is finished is given nothing, whatever became of the files. -/
theorem next_of_isFinished (hle : pass.offset ≤ program.size)
    (h : pass.isFinished program = true) (files : FileTable) :
    next program files pass = { files, pass, answer := none } := by
  rw [isFinished, Bool.or_eq_true, decide_eq_true_eq] at h
  rcases h with hfailed | hend
  · exact next_of_failed hfailed files
  · exact next_of_end (program.at?_of_le hle) (program.atEnd_cursorAt.mpr hend) files

theorem trace_of_isFinished (hle : pass.offset ≤ program.size)
    (h : pass.isFinished program = true) (files : FileTable) :
    pass.trace program files = { moments := [], files, pass, fault := none } := by
  rw [Pass.trace_eq, next_of_isFinished hle h]
  rfl

theorem next_of_answer_none (h : (next program files pass).answer = none) :
    next program files pass = { files, pass, answer := none } := by
  rcases next_outcome program files pass with hnext | ⟨-, e, he⟩ | ⟨row, hrow, -⟩
  · exact hnext
  · cases he.symm.trans h
  · cases hrow.symm.trans h

theorem isFinished_of_next (h : (next program files pass).answer = none) :
    pass.isFinished program = true := by
  by_cases hfailed : pass.failed = true
  · simp [isFinished, hfailed]
  · replace hfailed : pass.failed = false := by simpa using hfailed
    rcases hat : Cursor.at? program.bytes pass.offset with e | c
    · simp [next, hfailed, hat] at h
    · obtain ⟨hle, rfl⟩ := Reader.at?_eq_ok.1 hat
      by_cases hend : (program.cursorAt pass.offset).atEnd = true
      · simpa [isFinished] using Or.inr (program.atEnd_cursorAt.mp hend)
      · replace hend : (program.cursorAt pass.offset).atEnd = false := by simpa using hend
        rw [next_of_place hfailed hat hend] at h
        rcases pass.conclude_cases (MachineState.run program.header.toParameters
          ⟨pass.registers, files⟩ (program.cursorAt pass.offset)) with ⟨-, e, he⟩ | ⟨row, hrow, -⟩
        · cases he.symm.trans h
        · cases hrow.symm.trans h

end Pass
end DwarfLines
