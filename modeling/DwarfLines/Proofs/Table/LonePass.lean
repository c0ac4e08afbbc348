import Mathlib
import DwarfLines.Proofs.Machine.SharedFiles
import DwarfLines.Table.LineTable

/-!
# One pass alone and one pass among others

A pass over a table that nothing else uses is the measure of all others. `LineTable.alone` says
where it stands after a number of requests and `LineTable.answer` what it is given next. A pass
that stands where the lone pass stood, on a table that agrees with one the lone pass meets then or
later, is given the same answer and moves to the lone pass's next place. No pass runs ahead of a
failure, because the lone pass stays where it failed.
-/

namespace DwarfLines

/-- The same answer and place, on tables that agree. -/
structure Advance.Agrees (advance other : Advance) : Prop where
  pass : advance.pass = other.pass
  answer : advance.answer = other.answer
  files : advance.files.Agrees other.files

/-- The trace that begins with what a request gave. -/
def Advance.trace (program : LineProgram) (advance : Advance) : Trace :=
  match advance.answer with
  | none => { moments := [], files := advance.files, pass := advance.pass, fault := none }
  | some (.error e) =>
    { moments := [], files := advance.files, pass := advance.pass, fault := some e }
  | some (.ok row) =>
    let rest := advance.pass.trace program advance.files
    { rest with moments := ⟨row, advance.files, advance.pass⟩ :: rest.moments }

theorem Pass.trace_eq (program : LineProgram) (files : FileTable) (pass : Pass) :
    pass.trace program files = (pass.next program files).trace program := by
  rw [Pass.trace]
  dsimp only
  unfold Advance.trace
  split <;> simp_all

namespace Pass

def filesAfter (files : FileTable) (last : Cursor) : FileTable :=
  if last.atEnd then files.markComplete else files

theorem filesAfter_agrees (files : FileTable) (last : Cursor) :
    (filesAfter files last).Agrees files := by
  unfold filesAfter
  split_ifs
  · exact files.markComplete_agrees
  · exact .refl files

theorem finishRow_of_some (state : MachineState) {row : Registers} {last : Cursor}
    {file : FileEntry} (h : state.files.file? row.fileIndex = some file) :
    finishRow state row last =
      { files := filesAfter state.files last
        pass := { registers := state.registers, offset := last.offset }
        answer := some (.ok { registers := row, file }) } := by
  have hfile := ((filesAfter_agrees state.files last).file? row.fileIndex).trans h
  unfold finishRow
  dsimp only
  rw [← filesAfter, hfile]

theorem finishRow_of_none (state : MachineState) {row : Registers} {last : Cursor}
    (h : state.files.file? row.fileIndex = none) :
    finishRow state row last =
      { files := filesAfter state.files last
        pass := { registers := state.registers, offset := last.offset, failed := true }
        answer := some (.error (.format (.badFileIndex row.fileIndex))) } := by
  have hfile := ((filesAfter_agrees state.files last).file? row.fileIndex).trans h
  unfold finishRow
  dsimp only
  rw [← filesAfter, hfile]

theorem finishRow_files (state : MachineState) (row : Registers) (last : Cursor) :
    (finishRow state row last).files = filesAfter state.files last := by
  cases h : state.files.file? row.fileIndex with
  | none => rw [finishRow_of_none _ h]
  | some file => rw [finishRow_of_some _ h]

/-- What a pass makes of the run that a request begins. -/
def conclude (pass : Pass) :
    MachineState × Except LineError (Option Registers × Cursor) → Advance
  | (state, .error e) =>
    { files := state.files
      pass := { registers := state.registers, offset := pass.offset, failed := true }
      answer := some (.error e) }
  | (state, .ok (none, last)) =>
    { files := state.files
      pass := { registers := state.registers, offset := last.offset, failed := true }
      answer := some (.error (.format .unexpectedProgramEnd)) }
  | (state, .ok (some row, last)) => finishRow state row last

theorem next_of_failed {program : LineProgram} {pass : Pass} (h : pass.failed = true)
    (files : FileTable) : next program files pass = { files, pass, answer := none } := by
  simp [next, h]

theorem next_of_end {program : LineProgram} {pass : Pass} {c : Cursor}
    (hat : Cursor.at? program.bytes pass.offset = .ok c) (hend : c.atEnd = true)
    (files : FileTable) : next program files pass = { files, pass, answer := none } := by
  simp [next, hat, hend]

theorem next_of_place {program : LineProgram} {pass : Pass} {c : Cursor}
    (hfailed : pass.failed = false) (hat : Cursor.at? program.bytes pass.offset = .ok c)
    (hend : c.atEnd = false) (files : FileTable) :
    next program files pass =
      pass.conclude (MachineState.run program.header.toParameters ⟨pass.registers, files⟩ c) := by
  simp only [next, hfailed, hat, hend, if_false, Bool.false_eq_true]
  generalize MachineState.run program.header.toParameters ⟨pass.registers, files⟩ c = result
  rcases result with ⟨state, e | ⟨row | row, last⟩⟩ <;> rfl

/-- All that a request can do. Either it runs nothing and gives no row, or it runs instructions
from a place that the file table has no part in. -/
theorem next_cases (program : LineProgram) (pass : Pass) :
    (∃ after answer, (∀ row, answer ≠ some (.ok row)) ∧
      (answer = none → after = pass) ∧ (answer ≠ none → after.failed = true) ∧
      ∀ files, next program files pass = { files, pass := after, answer }) ∨
    ∃ c, pass.failed = false ∧ Cursor.at? program.bytes pass.offset = .ok c ∧ c.atEnd = false ∧
      ∀ files, next program files pass =
        pass.conclude
          (MachineState.run program.header.toParameters ⟨pass.registers, files⟩ c) := by
  by_cases hfailed : pass.failed = true
  · refine .inl ⟨pass, none, ?_, fun _ => rfl, fun h => absurd rfl h, next_of_failed hfailed⟩
    simp
  · replace hfailed : pass.failed = false := by simpa using hfailed
    cases hat : Cursor.at? program.bytes pass.offset with
    | error e =>
      refine .inl ⟨{ pass with failed := true }, some (.error (.read e)), ?_, ?_, fun _ => rfl,
        fun files => by simp [next, hfailed, hat]⟩
      · simp
      · simp
    | ok c =>
      by_cases hend : c.atEnd = true
      · refine .inl ⟨pass, none, ?_, fun _ => rfl, fun h => absurd rfl h, next_of_end hat hend⟩
        simp
      · replace hend : c.atEnd = false := by simpa using hend
        exact .inr ⟨c, hfailed, rfl, hend, next_of_place hfailed hat hend⟩

theorem conclude_agrees (pass : Pass)
    {result other : MachineState × Except LineError (Option Registers × Cursor)}
    (hstate : result.1.Agrees other.1) (hanswer : result.2 = other.2) :
    (pass.conclude result).Agrees (pass.conclude other) := by
  obtain ⟨state, answer⟩ := result
  obtain ⟨expected, _⟩ := other
  obtain rfl := hanswer
  replace hstate : state.Agrees expected := hstate
  rcases answer with e | ⟨row | row, last⟩
  · exact ⟨by simp [conclude, hstate.registers], rfl, hstate.files⟩
  · exact ⟨by simp [conclude, hstate.registers], rfl, hstate.files⟩
  · have hfiles := (filesAfter_agrees state.files last).trans
      (hstate.files.trans (filesAfter_agrees expected.files last).symm)
    have hfile := hstate.files.file? row.fileIndex
    cases hexpected : expected.files.file? row.fileIndex with
    | none =>
      rw [conclude, conclude, finishRow_of_none _ hexpected,
        finishRow_of_none _ (hfile.trans hexpected)]
      exact ⟨by rw [hstate.registers], rfl, hfiles⟩
    | some file =>
      rw [conclude, conclude, finishRow_of_some _ hexpected,
        finishRow_of_some _ (hfile.trans hexpected)]
      exact ⟨by rw [hstate.registers], rfl, hfiles⟩

theorem conclude_files (pass : Pass)
    (result : MachineState × Except LineError (Option Registers × Cursor)) :
    (pass.conclude result).files.Agrees result.1.files := by
  rcases result with ⟨state, e | ⟨row | row, last⟩⟩
  · exact .refl _
  · exact .refl _
  · rw [conclude, finishRow_files]
    exact filesAfter_agrees _ _

/-- A run that had nothing left to append, concluded on the table that covers it. -/
theorem conclude_covered (pass : Pass) (state : MachineState) {table : FileTable}
    (answer : Except LineError (Option Registers × Cursor))
    (hcovers : table.Covers state.files)
    (hended : (∀ row, (pass.conclude (state, answer)).answer ≠ some (.ok row)) →
      table.Agrees state.files) :
    (pass.conclude (⟨state.registers, table⟩, answer)).pass =
        (pass.conclude (state, answer)).pass ∧
      (pass.conclude (⟨state.registers, table⟩, answer)).answer =
        (pass.conclude (state, answer)).answer := by
  rcases answer with e | ⟨row | row, last⟩
  · exact ⟨rfl, rfl⟩
  · exact ⟨rfl, rfl⟩
  · simp only [conclude] at hended ⊢
    cases h : state.files.file? row.fileIndex with
    | none =>
      rw [finishRow_of_none _ h] at hended ⊢
      have hagrees := hended (by simp)
      have hnone := (hagrees.file? row.fileIndex).trans h
      rw [finishRow_of_none ⟨state.registers, table⟩ hnone]
      exact ⟨rfl, rfl⟩
    | some file =>
      rw [finishRow_of_some _ h,
        finishRow_of_some ⟨state.registers, table⟩ (hcovers.file? h)]
      exact ⟨rfl, rfl⟩

variable (program : LineProgram)

theorem next_agrees {table other : FileTable} (h : table.Agrees other) (pass : Pass) :
    (next program table pass).Agrees (next program other pass) := by
  rcases next_cases program pass with ⟨after, answer, -, -, -, hnext⟩ | ⟨c, -, -, -, hnext⟩
  · rw [hnext, hnext]
    exact ⟨rfl, rfl, h⟩
  · rw [hnext, hnext]
    have hbegin : MachineState.Agrees ⟨pass.registers, table⟩ ⟨pass.registers, other⟩ := ⟨rfl, h⟩
    obtain ⟨hstate, hanswer⟩ := MachineState.run_agrees program.header.toParameters hbegin c
    exact pass.conclude_agrees hstate hanswer

theorem next_covers (files : FileTable) (pass : Pass) :
    (next program files pass).files.Covers files := by
  rcases next_cases program pass with ⟨after, answer, -, -, -, hnext⟩ | ⟨c, -, -, -, hnext⟩
  · rw [hnext]
    exact .refl _
  · rw [hnext]
    exact (pass.conclude_files _).covers.trans (MachineState.run_covers _ _ c)

theorem next_files_of_five (h : 5 ≤ program.header.version) (files : FileTable) (pass : Pass) :
    (next program files pass).files.Agrees files := by
  rcases next_cases program pass with ⟨after, answer, -, -, -, hnext⟩ | ⟨c, -, -, -, hnext⟩
  · rw [hnext]
    exact .refl _
  · rw [hnext]
    have hrun := MachineState.run_files_of_five program.header.toParameters h
      ⟨pass.registers, files⟩ c
    have hfiles := pass.conclude_files
      (MachineState.run program.header.toParameters ⟨pass.registers, files⟩ c)
    rwa [hrun] at hfiles

/-- A request made on a table that already covers what the request appends. If the request gives
no row, the table must not have gone further. -/
theorem next_covered (own : FileTable) {table : FileTable} (pass : Pass)
    (hcovers : table.Covers (next program own pass).files)
    (hended : (∀ row, (next program own pass).answer ≠ some (.ok row)) →
      table.Agrees (next program own pass).files) :
    (next program table pass).pass = (next program own pass).pass ∧
      (next program table pass).answer = (next program own pass).answer ∧
      (next program table pass).files.Agrees table := by
  rcases next_cases program pass with ⟨after, answer, -, -, -, hnext⟩ | ⟨c, -, -, -, hnext⟩
  · rw [hnext, hnext]
    exact ⟨rfl, rfl, .refl _⟩
  · rw [hnext] at hcovers hended ⊢
    rw [hnext]
    generalize hrun : MachineState.run program.header.toParameters ⟨pass.registers, own⟩ c =
      result at hcovers hended ⊢
    have hfiles := pass.conclude_files result
    have hcovered :=
      MachineState.run_covered program.header.toParameters pass.registers own table c
    rw [hrun] at hcovered
    replace hcovered := hcovered (hcovers.trans hfiles.covers) fun e he =>
      (hended fun row hrow => by
        obtain ⟨state, answer⟩ := result
        obtain rfl : answer = .error e := he
        cases hrow).trans hfiles
    rw [hcovered]
    obtain ⟨hpass, hanswer⟩ := pass.conclude_covered result.1 result.2
      (hcovers.trans hfiles.covers) (fun h => (hended h).trans hfiles)
    exact ⟨hpass, hanswer, pass.conclude_files _⟩

theorem conclude_cases (pass : Pass)
    (result : MachineState × Except LineError (Option Registers × Cursor)) :
    ((pass.conclude result).pass.failed = true ∧
      ∃ e, (pass.conclude result).answer = some (.error e)) ∨
    ∃ row, (pass.conclude result).answer = some (.ok row) ∧
      (pass.conclude result).files.file? row.registers.fileIndex = some row.file := by
  rcases result with ⟨state, e | ⟨row | row, last⟩⟩
  · exact .inl ⟨rfl, e, rfl⟩
  · exact .inl ⟨rfl, _, rfl⟩
  · rw [conclude]
    cases hfile : state.files.file? row.fileIndex with
    | none =>
      rw [finishRow_of_none _ hfile]
      exact .inl ⟨rfl, _, rfl⟩
    | some file =>
      rw [finishRow_of_some _ hfile]
      exact .inr ⟨_, rfl, (filesAfter_agrees _ _).covers.file? hfile⟩

/-- What a request comes to: nothing changes, or the pass fails, or it is given a row whose file
is known. -/
theorem next_outcome (files : FileTable) (pass : Pass) :
    next program files pass = { files, pass, answer := none } ∨
    ((next program files pass).pass.failed = true ∧
      ∃ e, (next program files pass).answer = some (.error e)) ∨
    ∃ row, (next program files pass).answer = some (.ok row) ∧
      (next program files pass).files.file? row.registers.fileIndex = some row.file := by
  rcases next_cases program pass with
    ⟨after, answer, hno, hnone, hfails, hnext⟩ | ⟨c, -, -, -, hnext⟩
  · rw [hnext]
    match answer with
    | none => exact .inl (by rw [hnone rfl])
    | some (.error e) => exact .inr (.inl ⟨hfails (by simp), e, rfl⟩)
    | some (.ok row) => exact absurd rfl (hno row)
  · rw [hnext]
    exact .inr (pass.conclude_cases _)

end Pass

namespace LineTable

variable (table : LineTable)

def alone : ℕ → FileTable × Pass
  | 0 => (table.files, Pass.start table.program)
  | count + 1 =>
    let advance := (alone count).2.next table.program (alone count).1
    (advance.files, advance.pass)

/-- What the lone pass is given for a request. -/
def answer (count : ℕ) : Option (Except LineError Row) :=
  ((table.alone count).2.next table.program (table.alone count).1).answer

theorem alone_covers {count more : ℕ} (h : count ≤ more) :
    (table.alone more).1.Covers (table.alone count).1 := by
  induction more, h using Nat.le_induction with
  | base => exact .refl _
  | succ more _ ih => exact (Pass.next_covers _ _ _).trans ih

variable {table}

theorem alone_of_ended {count : ℕ} (h : ∀ row, table.answer count ≠ some (.ok row)) {more : ℕ}
    (hmore : count + 1 ≤ more) :
    table.alone more = table.alone (count + 1) ∧ table.answer more = none := by
  have hstill : ((table.alone (count + 1)).2.next table.program (table.alone (count + 1)).1) =
      { files := (table.alone (count + 1)).1, pass := (table.alone (count + 1)).2,
        answer := none } := by
    rcases Pass.next_outcome table.program (table.alone count).1
        (table.alone count).2 with hnext | ⟨hfailed, -⟩ | ⟨row, hrow, -⟩
    · have halone : table.alone (count + 1) = table.alone count := by
        rw [alone, hnext]
      rw [halone]
      exact hnext
    · exact Pass.next_of_failed hfailed _
    · exact absurd hrow (h row)
  induction more, hmore using Nat.le_induction with
  | base => exact ⟨rfl, congrArg Advance.answer hstill⟩
  | succ more _ ih =>
    have halone : table.alone (more + 1) = table.alone (count + 1) := by
      rw [alone, ih.1, hstill]
    exact ⟨halone, by rw [answer, halone, hstill]⟩

/-- A request of a pass that stands where the lone pass stood, on a table which agrees with one
that the lone pass meets then or later. -/
theorem next_of_agrees {files : FileTable} {count reached : ℕ}
    (hfiles : files.Agrees (table.alone reached).1) (hle : count ≤ reached) :
    ((table.alone count).2.next table.program files).pass = (table.alone (count + 1)).2 ∧
      ((table.alone count).2.next table.program files).answer = table.answer count ∧
      ((table.alone count).2.next table.program files).files.Agrees
        (table.alone (max reached (count + 1))).1 := by
  rcases hle.eq_or_lt with rfl | hlt
  · have h := Pass.next_agrees table.program hfiles (table.alone count).2
    rw [max_eq_right (Nat.le_succ count)]
    exact ⟨h.pass, h.answer, h.files⟩
  · rw [max_eq_left hlt]
    obtain ⟨hpass, hanswer, hstays⟩ := Pass.next_covered table.program
      (table.alone count).1 (table.alone count).2
      (hfiles.covers.trans (table.alone_covers hlt))
      (fun hended => by rw [(alone_of_ended hended hlt).1] at hfiles; exact hfiles)
    exact ⟨hpass, hanswer, hstays.trans hfiles⟩

theorem file_of_answer {count reached : ℕ} {row : Row}
    (h : table.answer count = some (.ok row)) (hle : count + 1 ≤ reached) :
    (table.alone reached).1.file? row.registers.fileIndex = some row.file := by
  refine (table.alone_covers hle).file? ?_
  rcases Pass.next_outcome table.program (table.alone count).1
      (table.alone count).2 with hnext | ⟨-, e, he⟩ | ⟨given, hgiven, hfile⟩
  · have hnone := congrArg Advance.answer hnext
    rw [answer, hnone] at h
    cases h
  · rw [answer, he] at h
    cases h
  · rw [answer, hgiven] at h
    cases h
    exact hfile

end LineTable
end DwarfLines
