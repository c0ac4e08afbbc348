import Mathlib
import DwarfLines.Proofs.Table.Finality

/-!
# Looking for a file again

A look-up that fails has run a whole pass, or knew that the file table is complete. So the second of
two look-ups finds the file if the pass declared it before it failed, and otherwise fails: with what
the pass failed for, or, if the pass took the last byte of the program, because the index is out of
range. A pass takes the last byte and fails all the same only if the row that ends there has no
file.
-/

namespace DwarfLines

namespace Pass

variable {program : LineProgram} {pass : Pass}

/-- A request completes the file table when it runs to the end of the program and comes to a row
there, whether or not the row has a file. -/
theorem next_complete (files : FileTable) (hle : pass.offset ≤ program.size) :
    (next program files pass).files.complete = (files.complete ||
      decide ((next program files pass).answer ≠ none ∧
        (next program files pass).answer ≠ some (.error (.format .unexpectedProgramEnd)) ∧
        program.size ≤ (next program files pass).pass.offset)) := by
  by_cases hfailed : pass.failed = true
  · simp [next_of_failed hfailed]
  · replace hfailed : pass.failed = false := by simpa using hfailed
    by_cases hend : (program.cursorAt pass.offset).atEnd = true
    · simp [next_of_end (program.at?_of_le hle) hend]
    · replace hend : (program.cursorAt pass.offset).atEnd = false := by simpa using hend
      have hbefore : pass.offset < program.size := by
        rw [← Nat.not_le, ← program.atEnd_cursorAt, hend]
        simp
      rw [next_of_place hfailed (program.at?_of_le hle) hend]
      have hremembers := (MachineState.run_remembers program.header.toParameters
        ⟨pass.registers, files⟩ (program.cursorAt pass.offset)).complete
      rcases hrun : MachineState.run program.header.toParameters ⟨pass.registers, files⟩
        (program.cursorAt pass.offset) with ⟨state, e | ⟨row | row, last⟩⟩
      all_goals
        rw [hrun] at hremembers
        replace hremembers : state.files.complete = files.complete := hremembers
      · simp [conclude, hremembers, Nat.not_le.mpr hbefore]
      · simp [conclude, hremembers]
      · have hlast := program.eq_cursorAt (MachineState.run_lt hrun).1
        have hatEnd : last.atEnd = true ↔ program.size ≤ last.offset := by
          rw [hlast]
          exact program.atEnd_cursorAt
        rw [conclude, finishRow_files, filesAfter_complete, hremembers, finishRow_offset]
        cases hfile : state.files.file? row.fileIndex with
        | none => simp [finishRow_of_none _ hfile, ← hatEnd]
        | some file => simp [finishRow_of_some _ hfile, ← hatEnd]

theorem isFinished_eq_false {files : FileTable} (hle : pass.offset ≤ program.size)
    (h : (next program files pass).answer ≠ none) : pass.isFinished program = false := by
  rw [← Bool.not_eq_true]
  exact fun hfinished => h (congrArg Advance.answer (next_of_isFinished hle hfinished files))

/-- A trace completes the file table when it gives a last row at the end of the program, or fails
there because that row has no file. -/
theorem trace_complete (files : FileTable) (hle : pass.offset ≤ program.size) :
    (pass.trace program files).files.complete = (files.complete ||
      decide (pass.isFinished program = false ∧
        (pass.trace program files).fault ≠ some (.format .unexpectedProgramEnd) ∧
        program.size ≤ (pass.trace program files).pass.offset)) := by
  fun_induction Pass.trace program files pass with
  | case1 files pass advance hanswer =>
    have hfirst := next_complete files hle
    simpa [advance, hanswer, isFinished_of_next hanswer] using hfirst
  | case2 files pass advance e hanswer =>
    have hfirst := next_complete files hle
    have hfresh : pass.isFinished program = false :=
      isFinished_eq_false hle (hanswer.trans_ne (by simp))
    simpa [advance, hanswer, hfresh] using hfirst
  | case3 files pass advance row hanswer hoffset rest ih =>
    have hfirst := next_complete files hle
    have hfresh : pass.isFinished program = false :=
      isFinished_eq_false hle (hanswer.trans_ne (by simp))
    obtain ⟨state, last, hgives⟩ := exists_givesRow hanswer
    have hinside := (next_offset hanswer).2
    have hrest := ih hinside
    have hstill : advance.pass.failed = false := congrArg (·.pass.failed) hgives.next
    by_cases hlast : program.size ≤ advance.pass.offset
    · have hfinished : advance.pass.isFinished program = true := by simp [isFinished, hlast]
      have hnothing : rest = _ := trace_of_isFinished hinside hfinished advance.files
      simp [hnothing, hfresh, hfirst, advance, hanswer, hlast]
    · have hgoes : advance.pass.isFinished program = false := by simp [isFinished, hstill, hlast]
      rw [hgoes] at hrest
      simpa [hfresh, hfirst, advance, hanswer, hlast] using hrest

end Pass

namespace LineTable

variable {table current : LineTable} {reached : ℕ}

/-- A whole pass on a table that other passes have extended, but not completed, ends as an
uninterrupted pass and leaves what that leaves. -/
theorem trace_on_extended {files : FileTable} (hfiles : files.Agrees (table.alone reached).1)
    (hcomplete : files.complete = table.files.complete)
    (hle : table.program.header.programOffset ≤ table.program.size) :
    let ran := (Pass.start table.program).trace table.program files
    ran.fault = table.trace.fault ∧ ran.files.Agrees table.trace.files ∧
      ran.files.complete = table.trace.files.complete := by
  intro ran
  have hfollows : table.Follows 0 reached ran := trace_follows hfiles (Nat.zero_le _) rfl
  have halone := table.trace_follows_alone
  have hfault := (Trace.eq_of_answers_eq (hfollows.answers_eq halone)).2
  refine ⟨hfault, ?_, ?_⟩
  · have hended := table.trace_ended
    rw [← hfollows.length_eq halone] at hended
    exact hfollows.lastFiles.trans (agrees_of_ended hended (by omega))
  · have hpass : ran.pass = table.trace.pass := by
      rw [hfollows.lastPass, halone.lastPass, hfollows.length_eq halone]
    unfold ran trace at hfault hpass
    unfold ran trace
    rw [Pass.trace_complete _ hle, Pass.trace_complete _ hle, hcomplete]
    simp only [hfault, hpass]

theorem knownFile_of_none (files : FileTable) {index : UInt64} (h : files.file? index = none) :
    knownFile ⟨table.program, files⟩ index = .error (.outOfRange index files.files.length) := by
  simp only [knownFile, h]

theorem getFile_of_known (files : FileTable) (index : UInt64)
    (h : (files.file? index).isSome ∨ files.complete = true) :
    getFile ⟨table.program, files⟩ index =
      (⟨table.program, files⟩, knownFile ⟨table.program, files⟩ index) := by
  rw [getFile, if_pos h]

theorem getFile_of_unknown (files : FileTable) {index : UInt64} (hnone : files.file? index = none)
    (hcomplete : files.complete = false) :
    getFile ⟨table.program, files⟩ index =
      let ran := (Pass.start table.program).trace table.program files.recordFullScan
      match ran.fault with
      | some e => (⟨table.program, ran.files⟩, .error e)
      | none =>
        (⟨table.program, ran.files.markComplete⟩,
          knownFile ⟨table.program, ran.files.markComplete⟩ index) := by
  rw [getFile, if_neg (by simp [hnone, hcomplete]), scan]
  dsimp only
  generalize (Pass.start table.program).trace table.program files.recordFullScan = ran
  cases ran.fault <;> rfl

/-- What a look-up gives right after one that failed with an error: the file if a pass declares it
before it fails, no file if a pass fails at a row that ends with the last byte of the program, and
otherwise the same error. -/
def answerAgain (table : LineTable) (index : UInt64) (e : LineError) :
    Except LineError FileEntry :=
  match table.trace.files.file? index with
  | some file => .ok file
  | none =>
    if table.trace.fault.isSome ∧ table.trace.files.complete then
      .error (.outOfRange index table.trace.files.files.length)
    else
      .error e

/-- A look-up on what a scan that failed has left. -/
theorem getFile_after_fault {files : FileTable} (hall : files.Agrees table.trace.files)
    (hdone : files.complete = table.trace.files.complete) (hfresh : table.files.complete = false)
    (hle : table.program.header.programOffset ≤ table.program.size) {e : LineError}
    (hfault : table.trace.fault = some e) (index : UInt64) :
    (getFile ⟨table.program, files⟩ index).2 = table.answerAgain index e := by
  rw [answerAgain, ← hall.file? index, ← hall.files, ← hdone, hfault]
  cases hfile : files.file? index with
  | some file => rw [getFile_of_known files index (by simp [hfile]), knownFile, hfile]
  | none =>
    cases hlast : files.complete with
    | true =>
      rw [getFile_of_known files index (.inr hlast), knownFile_of_none files hfile]
      simp
    | false =>
      have hbegin := files.recordFullScan_agrees.trans (hall.trans table.trace_files_agrees)
      obtain ⟨hagain, -, -⟩ := trace_on_extended hbegin (hlast.trans hfresh.symm) hle
      rw [getFile_of_unknown files hfile hlast]
      simp [hagain, hfault]

theorem Truthful.getFile_again (h : table.Truthful current.files)
    (hextends : current.Extends table reached) (hfresh : table.files.complete = false)
    (hle : table.program.header.programOffset ≤ table.program.size) {index : UInt64} {e : LineError}
    (hfails : (current.getFile index).2 = .error e) :
    ((current.getFile index).1.getFile index).2 = table.answerAgain index e := by
  obtain ⟨program, files⟩ := current
  obtain rfl : program = table.program := hextends.program
  cases hnone : files.file? index with
  | some file => simp [LineTable.getFile, knownFile, hnone] at hfails
  | none =>
  cases hcomplete : files.complete with
  | true =>
    have hall := h hcomplete
    have hgot := table.getFile_of_known files index (.inr hcomplete)
    rw [hgot, knownFile_of_none files hnone, Except.error.injEq] at hfails
    rw [hgot, hgot, knownFile_of_none files hnone, answerAgain, ← hall.file? index, ← hall.files,
      hnone]
    dsimp only
    rw [hfails, ite_self]
  | false =>
    have hbegin := files.recordFullScan_agrees.trans hextends.files
    obtain ⟨hfault, hall, hdone⟩ := trace_on_extended hbegin (hcomplete.trans hfresh.symm) hle
    rw [getFile_of_unknown files hnone hcomplete] at hfails ⊢
    dsimp only at hfails ⊢
    generalize (Pass.start table.program).trace table.program files.recordFullScan = ran
      at hfails hfault hall hdone ⊢
    cases hran : ran.fault with
    | some e' =>
      simp only [hran, Except.error.injEq] at hfails ⊢
      subst hfails
      exact getFile_after_fault hall hdone hfresh hle (hfault.symm.trans hran) index
    | none =>
      simp only [hran] at hfails ⊢
      rw [getFile_of_known ran.files.markComplete index (.inr rfl), hfails, answerAgain,
        ← hall.file? index, ← hfault, hran]
      cases hfile : ran.files.file? index with
      | none => simp
      | some file =>
        rw [knownFile, show ran.files.markComplete.file? index = some file from hfile] at hfails
        cases hfails

end LineTable

namespace Session

variable {session : Session}

theorem handle?_setFiles {current : LineTable} (h : session.handle? = some current)
    (files : FileTable) : (session.setFiles files).handle? = some { current with files } := by
  unfold handle? at h ⊢
  split_ifs at h with hheld
  rw [if_pos (by exact hheld), shared_setFiles h]

theorem perform_file_again {index : UInt64} {answer : Except LineError FileEntry}
    (h : (session.perform (.file index)).2 = .file answer) :
    ∃ current, session.shared = some current ∧ (current.getFile index).2 = answer ∧
      ((session.perform (.file index)).1.perform (.file index)).2 =
        .file ((current.getFile index).1.getFile index).2 := by
  cases hhandle : session.handle? with
  | none => simp [perform, withHandle, hhandle] at h
  | some current =>
    rw [perform_file hhandle, Outcome.file.injEq] at h
    refine ⟨current, shared_of_handle? hhandle, h, ?_⟩
    obtain ⟨more, -, hextends⟩ := (LineTable.Extends.refl current).getFile index
    have hafter : (current.getFile index).1 =
        { current with files := (current.getFile index).1.files } := by
      rw [← hextends.program]
    rw [perform_file hhandle, perform_file (handle?_setFiles hhandle _), ← hafter]

end Session

namespace LineTable

open Chronicle

/-- Whatever was done in a session, when a look-up fails the next look-up of the same file fails
with the same error, except where the failing pass has declared the file, which is found then, or
has failed at a row that ends with the last byte of the program, and then there is no file. -/
theorem getFile_fails_again {order : ByteOrder} {lines : List UInt8} {offset : ℕ}
    {context : UnitContext} {table : LineTable}
    (hparse : parse order lines offset context = .ok table) (operations : List Operation)
    {index : UInt64} {e : LineError}
    (hfails : (((Session.ofTable table).performAll operations).perform (.file index)).2 =
      .file (.error e)) :
    ((((Session.ofTable table).performAll operations).perform (.file index)).1.perform
      (.file index)).2 = .file (table.answerAgain index e) := by
  obtain ⟨haccepted, hfresh⟩ := fresh_of_parse hparse
  obtain ⟨reached, -, hkept⟩ := (start_keeps table).performAll operations
  obtain ⟨current, hshared, hanswer, hagain⟩ := Session.perform_file_again hfails
  have htruthful := (honest_performAll hfresh operations).1
  replace hshared : ((start table).performAll operations).session.shared = some current := by
    rw [session_performAll]
    exact hshared
  rw [hagain, (htruthful current hshared).getFile_again (hkept.shared current hshared)
    hfresh.complete haccepted.programOffset_le hanswer]

/-- A program that declares a file and then has an instruction that nothing is known of. A file that
it does not declare is missed twice in the same way. -/
theorem getFile_fails_alike_after_late_file :
    ∃ table, LineTable.parse .little
        [25, 0, 0, 0, 2, 0, 8, 0, 0, 0, 1, 1, 0, 1, 2, 0, 0, 0,
          0, 6, 3, 97, 0, 0, 0, 0, 0, 1, 128] 0 { compDir := "/", name := "u" } = .ok table ∧
      ((Session.ofTable table).perform (.file 2)).2 = .file (.error (.vendorOpcode 128)) ∧
      (((Session.ofTable table).perform (.file 2)).1.perform (.file 2)).2 =
        .file (.error (.vendorOpcode 128)) := by
  have hknown : (LineTable.parse .little
      [25, 0, 0, 0, 2, 0, 8, 0, 0, 0, 1, 1, 0, 1, 2, 0, 0, 0,
        0, 6, 3, 97, 0, 0, 0, 0, 0, 1, 128] 0 { compDir := "/", name := "u" }).map
        (fun table => decide ((table.getFile 2).2 = .error (.vendorOpcode 128) ∧
          table.answerAgain 2 (.vendorOpcode 128) = .error (.vendorOpcode 128))) =
      .ok true := by
    decide +kernel
  obtain ⟨table, hparse, hfacts⟩ := exists_of_map_eq_ok hknown
  obtain ⟨hfirst, hagain⟩ := of_decide_eq_true hfacts
  have hfails : ((Session.ofTable table).perform (.file 2)).2 =
      .file (.error (.vendorOpcode 128)) := congrArg Outcome.file hfirst
  have hsecond := getFile_fails_again hparse [] hfails
  rw [hagain] at hsecond
  exact ⟨table, hparse, hfails, hsecond⟩

/-- The file that the program declares is found by the second look-up, though the first one failed.
And a program whose only row has no file: the first look-up tells of the row, the second that the
index is out of range. -/
theorem getFile_fails_then_differs :
    (∃ table, LineTable.parse .little
        [25, 0, 0, 0, 2, 0, 8, 0, 0, 0, 1, 1, 0, 1, 2, 0, 0, 0,
          0, 6, 3, 97, 0, 0, 0, 0, 0, 1, 128] 0 { compDir := "/", name := "u" } = .ok table ∧
      (table.getFile 1).2 = .error (.vendorOpcode 128) ∧
      ((table.getFile 1).1.getFile 1).2 = .ok { path := "/a", directoryIndex := 0 }) ∧
    ∃ table, LineTable.parse .little
        [15, 0, 0, 0, 2, 0, 8, 0, 0, 0, 1, 1, 0, 1, 2, 0, 0, 0, 1] 0
        { compDir := "/", name := "u" } = .ok table ∧
      (table.getFile 1).2 = .error (.format (.badFileIndex 1)) ∧
      ((table.getFile 1).1.getFile 1).2 = .error (.outOfRange 1 1) := by
  have hdeclared : (LineTable.parse .little
      [25, 0, 0, 0, 2, 0, 8, 0, 0, 0, 1, 1, 0, 1, 2, 0, 0, 0,
        0, 6, 3, 97, 0, 0, 0, 0, 0, 1, 128] 0 { compDir := "/", name := "u" }).map
        (fun table => decide ((table.getFile 1).2 = .error (.vendorOpcode 128) ∧
          ((table.getFile 1).1.getFile 1).2 = .ok { path := "/a", directoryIndex := 0 })) =
      .ok true := by
    decide +kernel
  have hcompleted : (LineTable.parse .little
      [15, 0, 0, 0, 2, 0, 8, 0, 0, 0, 1, 1, 0, 1, 2, 0, 0, 0, 1] 0
      { compDir := "/", name := "u" }).map
        (fun table => decide ((table.getFile 1).2 = .error (.format (.badFileIndex 1)) ∧
          ((table.getFile 1).1.getFile 1).2 = .error (.outOfRange 1 1))) = .ok true := by
    decide +kernel
  obtain ⟨declared, hparse, hfacts⟩ := exists_of_map_eq_ok hdeclared
  obtain ⟨completed, hparse', hfacts'⟩ := exists_of_map_eq_ok hcompleted
  exact ⟨⟨declared, hparse, of_decide_eq_true hfacts⟩, completed, hparse',
    of_decide_eq_true hfacts'⟩

end LineTable
end DwarfLines
