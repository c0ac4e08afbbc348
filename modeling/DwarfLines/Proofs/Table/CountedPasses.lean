import Mathlib
import DwarfLines.Proofs.Table.AddressSearch
import DwarfLines.Proofs.Table.LonePass

/-!
# The work of passes, counted

What a pass executes is counted by functions that do what the ones without a counter do and keep a
tally: of each instruction that is begun, whether it succeeds or not, and of each row that is
given. An instruction that succeeds passes at least one byte, and after one that fails the pass
gives nothing more. So the bytes that a pass has before it pay for everything it still does,
whatever the lengths and operands of its instructions say.
-/

namespace DwarfLines

/-- How many instructions were begun and how many rows were given. -/
structure Work where
  instructions : ℕ
  rows : ℕ
  deriving DecidableEq, Repr

namespace Work

instance : Zero Work := ⟨⟨0, 0⟩⟩

instance : Add Work :=
  ⟨fun first second =>
    ⟨first.instructions + second.instructions, first.rows + second.rows⟩⟩

@[simp] theorem instructions_add (first second : Work) :
    (first + second).instructions = first.instructions + second.instructions := rfl

@[simp] theorem rows_add (first second : Work) :
    (first + second).rows = first.rows + second.rows := rfl

theorem rows_add_le {first second : Work} (hfirst : first.rows ≤ first.instructions)
    (hsecond : second.rows ≤ second.instructions) :
    (first + second).rows ≤ (first + second).instructions :=
  Nat.add_le_add hfirst hsecond

/-- No more instructions than a number, and no more rows than instructions. -/
structure Within (work : Work) (most : ℕ) : Prop where
  instructions : work.instructions ≤ most
  rows : work.rows ≤ work.instructions

theorem zero_within (most : ℕ) : (0 : Work).Within most := ⟨Nat.zero_le _, le_rfl⟩

theorem Within.mono {work : Work} {most more : ℕ} (h : work.Within most) (hle : most ≤ more) :
    work.Within more :=
  ⟨h.instructions.trans hle, h.rows⟩

end Work

namespace MachineState

def runCounted (parameters : Parameters) (state : MachineState) (c : Cursor) :
    (MachineState × Except LineError (Option Registers × Cursor)) × ℕ :=
  if c.atEnd then
    ((state, .ok (none, c)), 0)
  else
    match h : state.step parameters c with
    | (next, .error e) => ((next, .error e), 1)
    | (next, .ok (some row, last)) => ((next, .ok (some row, last)), 1)
    | (next, .ok (none, last)) =>
      have := Cursor.length_lt (step_lt parameters state h)
      let (result, count) := runCounted parameters next last
      (result, count + 1)
termination_by c.rest.length

/-- The bytes that are left for further instructions; after a failure there are none to come. -/
def bytesLeft : Except LineError (Option Registers × Cursor) → ℕ
  | .ok (_, last) => last.rest.length
  | .error _ => 0

variable (parameters : Parameters) (state : MachineState) (c : Cursor)

theorem runCounted_value : (runCounted parameters state c).1 = run parameters state c := by
  fun_induction run parameters state c with
  | case1 state c hend => rw [runCounted, if_pos hend]
  | case2 state c hend next e hstep =>
    rw [runCounted, if_neg hend]
    split <;> simp_all
  | case3 state c hend next row last hstep =>
    rw [runCounted, if_neg hend]
    split <;> simp_all
  | case4 state c hend next last hstep hlt ih =>
    rw [runCounted, if_neg hend]
    split <;> simp_all

theorem runCounted_cost :
    (runCounted parameters state c).2 + bytesLeft (runCounted parameters state c).1.2 ≤
      c.rest.length := by
  fun_induction runCounted parameters state c with
  | case1 state c hend => simp [bytesLeft]
  | case2 state c hend next e hstep =>
    have hbyte : 0 < c.rest.length := by
      simpa [Cursor.atEnd, List.length_pos_iff] using hend
    simp only [bytesLeft]
    omega
  | case3 state c hend next row last hstep =>
    have hlt := Cursor.length_lt (step_lt parameters state hstep)
    simp only [bytesLeft]
    omega
  | case4 state c hend next last hstep hlt result count hmore ih =>
    rw [hmore] at ih
    dsimp only at ih ⊢
    omega

theorem runCounted_moves {row : Registers} {last : Cursor}
    (h : (runCounted parameters state c).1.2 = .ok (some row, last)) :
    0 < (runCounted parameters state c).2 ∧ c ≤ last := by
  constructor
  · unfold runCounted at h ⊢
    split at h
    · cases h
    · split at h <;> simp_all
  · rw [runCounted_value] at h
    have hrun : run parameters state c = ((run parameters state c).1, .ok (some row, last)) := by
      rw [← h]
    exact (run_lt hrun).1

end MachineState

def Advance.rowCount (advance : Advance) : ℕ :=
  match advance.answer with
  | some (.ok _) => 1
  | _ => 0

/-- What a search comes to after a request. -/
def Advance.seek (program : LineProgram) (address : UInt64) (previous : Row)
    (advance : Advance) : FileTable × Except LineError (Option Row) :=
  match advance.answer with
  | none => (advance.files, .ok none)
  | some (.error e) => (advance.files, .error e)
  | some (.ok row) =>
    if Row.covers address previous row then (advance.files, .ok (some previous))
    else advance.pass.seek program address advance.files row

namespace Pass

theorem seek_eq_next (program : LineProgram) (address : UInt64) (files : FileTable) (pass : Pass)
    (previous : Row) :
    pass.seek program address files previous =
      (pass.next program files).seek program address previous := by
  rw [seek]
  dsimp only
  unfold Advance.seek
  split <;> simp_all

def nextCounted (program : LineProgram) (files : FileTable) (pass : Pass) : Advance × Work :=
  if pass.failed then
    ({ files, pass, answer := none }, 0)
  else
    match Cursor.at? program.bytes pass.offset with
    | .error e =>
      ({ files, pass := { pass with failed := true }, answer := some (.error (.read e)) }, 0)
    | .ok c =>
      if c.atEnd then
        ({ files, pass, answer := none }, 0)
      else
        let (result, count) :=
          MachineState.runCounted program.header.toParameters ⟨pass.registers, files⟩ c
        let advance := pass.conclude result
        (advance, ⟨count, advance.rowCount⟩)

theorem nextCounted_value (program : LineProgram) (files : FileTable) (pass : Pass) :
    (nextCounted program files pass).1 = next program files pass := by
  unfold nextCounted
  split_ifs with hfailed
  · rw [next_of_failed hfailed]
  · cases hat : Cursor.at? program.bytes pass.offset with
    | error e => simp [next, hfailed, hat]
    | ok c =>
      dsimp only
      split_ifs with hend
      · rw [next_of_end hat hend]
      · rw [next_of_place (by simpa using hfailed) hat (by simpa using hend),
          ← MachineState.runCounted_value]

theorem nextCounted_offset {program : LineProgram} {files : FileTable} {pass : Pass} {row : Row}
    (h : (nextCounted program files pass).1.answer = some (.ok row)) :
    program.size - (nextCounted program files pass).1.pass.offset <
      program.size - pass.offset := by
  rw [nextCounted_value] at h ⊢
  have hoffset := next_offset h
  omega

def traceCounted (program : LineProgram) (files : FileTable) (pass : Pass) : Trace × Work :=
  let counted := pass.nextCounted program files
  let advance := counted.1
  match h : advance.answer with
  | none =>
    ({ moments := [], files := advance.files, pass := advance.pass, fault := none }, counted.2)
  | some (.error e) =>
    ({ moments := [], files := advance.files, pass := advance.pass, fault := some e }, counted.2)
  | some (.ok row) =>
    have := nextCounted_offset h
    let (rest, more) := traceCounted program advance.files advance.pass
    ({ rest with moments := ⟨row, advance.files, advance.pass⟩ :: rest.moments },
      counted.2 + more)
termination_by program.size - pass.offset

def seekCounted (program : LineProgram) (address : UInt64) (files : FileTable) (pass : Pass)
    (previous : Row) : (FileTable × Except LineError (Option Row)) × Work :=
  let counted := pass.nextCounted program files
  let advance := counted.1
  match h : advance.answer with
  | none => ((advance.files, .ok none), counted.2)
  | some (.error e) => ((advance.files, .error e), counted.2)
  | some (.ok row) =>
    have := nextCounted_offset h
    if Row.covers address previous row then
      ((advance.files, .ok (some previous)), counted.2)
    else
      let (result, more) := seekCounted program address advance.files advance.pass row
      (result, counted.2 + more)
termination_by program.size - pass.offset

theorem traceCounted_value (program : LineProgram) (files : FileTable) (pass : Pass) :
    (traceCounted program files pass).1 = trace program files pass := by
  fun_induction traceCounted program files pass with
  | case1 files pass counted advance hanswer =>
    rw [trace_eq, ← nextCounted_value, Advance.trace, hanswer]
  | case2 files pass counted advance e hanswer =>
    rw [trace_eq, ← nextCounted_value, Advance.trace, hanswer]
  | case3 files pass counted advance row hanswer hoffset rest more hrest ih =>
    rw [trace_eq, ← nextCounted_value, Advance.trace, hanswer, ← ih, hrest]

theorem seekCounted_value (program : LineProgram) (address : UInt64) (files : FileTable)
    (pass : Pass) (previous : Row) :
    (seekCounted program address files pass previous).1 =
      seek program address files pass previous := by
  fun_induction seekCounted program address files pass previous with
  | case1 files pass previous counted advance hanswer =>
    rw [seek_eq_next, ← nextCounted_value, Advance.seek, hanswer]
  | case2 files pass previous counted advance e hanswer =>
    rw [seek_eq_next, ← nextCounted_value, Advance.seek, hanswer]
  | case3 files pass previous counted advance row hanswer hoffset hcovers =>
    rw [seek_eq_next, ← nextCounted_value, Advance.seek, hanswer]
    exact (if_pos hcovers).symm
  | case4 files pass previous counted advance row hanswer hoffset hcovers result more hmore ih =>
    rw [seek_eq_next, ← nextCounted_value, Advance.seek, hanswer]
    rw [hmore] at ih
    exact ih.trans (if_neg hcovers).symm

theorem nextCounted_rows (program : LineProgram) (files : FileTable) (pass : Pass) :
    (nextCounted program files pass).2.rows = (nextCounted program files pass).1.rowCount := by
  unfold nextCounted
  split_ifs
  · rfl
  · cases Cursor.at? program.bytes pass.offset with
    | error e => rfl
    | ok c =>
      dsimp only
      split_ifs <;> rfl

theorem traceCounted_rows (program : LineProgram) (files : FileTable) (pass : Pass) :
    (traceCounted program files pass).2.rows =
      (traceCounted program files pass).1.rows.length := by
  fun_induction traceCounted program files pass with
  | case1 files pass counted advance hanswer =>
    refine (pass.nextCounted_rows program files).trans ?_
    rw [Advance.rowCount, hanswer]
    rfl
  | case2 files pass counted advance e hanswer =>
    refine (pass.nextCounted_rows program files).trans ?_
    rw [Advance.rowCount, hanswer]
    rfl
  | case3 files pass counted advance row hanswer hoffset rest more hrest ih =>
    have hfirst : counted.2.rows = 1 := by
      refine (pass.nextCounted_rows program files).trans ?_
      rw [Advance.rowCount, hanswer]
    rw [hrest] at ih
    rw [Work.rows_add, hfirst, ih]
    exact Nat.add_comm _ _

/-! ### What pays for the work of a pass -/

/-- The bytes before a pass, unless it failed. -/
def remaining (program : LineProgram) (pass : Pass) : ℕ :=
  if pass.failed then 0 else program.size - pass.offset

theorem remaining_of_failed {program : LineProgram} {pass : Pass} (h : pass.failed = true) :
    pass.remaining program = 0 :=
  if_pos h

theorem remaining_le (program : LineProgram) (pass : Pass) :
    pass.remaining program ≤ program.size - pass.offset := by
  unfold remaining
  split_ifs
  · exact Nat.zero_le _
  · exact le_rfl

/-- Work that moves a pass from one place to another, paid for by the bytes between. -/
structure Spends (program : LineProgram) (pass after : Pass) (work : Work) : Prop where
  instructions : work.instructions + after.remaining program ≤ pass.remaining program
  rows : work.rows ≤ work.instructions

variable {program : LineProgram} {pass between after : Pass} {work more : Work}

theorem Spends.refl (program : LineProgram) (pass : Pass) : Spends program pass pass 0 :=
  ⟨(Nat.zero_add _).le, le_rfl⟩

theorem Spends.trans (h : Spends program pass between work)
    (h' : Spends program between after more) : Spends program pass after (work + more) := by
  have hfirst := h.instructions
  have hsecond := h'.instructions
  refine ⟨?_, Work.rows_add_le h.rows h'.rows⟩
  rw [Work.instructions_add]
  omega

theorem Spends.remaining_le (h : Spends program pass after work) :
    after.remaining program ≤ pass.remaining program :=
  (Nat.le_add_left _ _).trans h.instructions

theorem Spends.within (h : Spends program pass after work) :
    work.Within (pass.remaining program) :=
  ⟨(Nat.le_add_right _ _).trans h.instructions, h.rows⟩

theorem Spends.add_within (h : Spends program pass between work)
    (hmore : more.Within (between.remaining program)) :
    (work + more).Within (pass.remaining program) := by
  have hfirst := h.instructions
  have hsecond := hmore.instructions
  refine ⟨?_, Work.rows_add_le h.rows hmore.rows⟩
  rw [Work.instructions_add]
  omega

/-- A run pays for its instructions with the bytes that it passes, and one that fails with all
bytes that are left. -/
theorem conclude_spends {c : Cursor} {count : ℕ}
    {result : MachineState × Except LineError (Option Registers × Cursor)}
    (hfailed : pass.failed = false) (hat : Cursor.at? program.bytes pass.offset = .ok c)
    (hcost : count + MachineState.bytesLeft result.2 ≤ c.rest.length)
    (hmoves : ∀ row last, result.2 = .ok (some row, last) → 0 < count ∧ c ≤ last) :
    Spends program pass (pass.conclude result).pass ⟨count, (pass.conclude result).rowCount⟩ := by
  obtain ⟨hle, rfl⟩ := Reader.at?_eq_ok.1 hat
  have hwhole : pass.remaining program = (program.bytes.drop pass.offset).length := by
    rw [remaining, hfailed, List.length_drop]
    rfl
  -- A pass that fails keeps nothing, so its run may have taken all the bytes before it.
  rcases result with ⟨state, e | ⟨row | row, last⟩⟩
  · exact ⟨hwhole.symm ▸ hcost, Nat.zero_le _⟩
  · refine ⟨?_, Nat.zero_le _⟩
    rw [hwhole, remaining_of_failed rfl]
    exact (Nat.le_add_right _ _).trans hcost
  · obtain ⟨hpos, hplace⟩ := hmoves row last rfl
    have hsum := Cursor.offset_add_length hplace
    have hleft := (finishRow state row last).pass.remaining_le program
    rw [finishRow_offset, LineProgram.size] at hleft
    constructor
    · simp only [MachineState.bytesLeft, List.length_drop] at hcost hsum hwhole
      simp only [conclude]
      omega
    · simp only [Advance.rowCount]
      split <;> omega

theorem nextCounted_spends (program : LineProgram) (files : FileTable) (pass : Pass) :
    Spends program pass (nextCounted program files pass).1.pass
      (nextCounted program files pass).2 := by
  unfold nextCounted
  split_ifs with hfailed
  · exact .refl program pass
  · cases hat : Cursor.at? program.bytes pass.offset with
    | error e => exact ⟨Nat.zero_le _, le_rfl⟩
    | ok c =>
      dsimp only
      split_ifs with hend
      · exact .refl program pass
      · apply conclude_spends (by simpa using hfailed) hat
        · exact MachineState.runCounted_cost _ _ c
        · intro row last hrow
          exact MachineState.runCounted_moves _ _ c hrow

theorem traceCounted_spends (program : LineProgram) (files : FileTable) (pass : Pass) :
    Spends program pass (traceCounted program files pass).1.pass
      (traceCounted program files pass).2 := by
  fun_induction traceCounted program files pass with
  | case1 files pass counted advance hanswer => exact pass.nextCounted_spends program files
  | case2 files pass counted advance e hanswer => exact pass.nextCounted_spends program files
  | case3 files pass counted advance row hanswer hoffset rest more hrest ih =>
    rw [hrest] at ih
    exact (pass.nextCounted_spends program files).trans ih

theorem seekCounted_within (program : LineProgram) (address : UInt64) (files : FileTable)
    (pass : Pass) (previous : Row) :
    (seekCounted program address files pass previous).2.Within (pass.remaining program) := by
  fun_induction seekCounted program address files pass previous with
  | case1 files pass previous counted advance hanswer =>
    exact (pass.nextCounted_spends program files).within
  | case2 files pass previous counted advance e hanswer =>
    exact (pass.nextCounted_spends program files).within
  | case3 files pass previous counted advance row hanswer hoffset hcovers =>
    exact (pass.nextCounted_spends program files).within
  | case4 files pass previous counted advance row hanswer hoffset hcovers result more hmore ih =>
    rw [hmore] at ih
    exact (pass.nextCounted_spends program files).add_within ih

end Pass

namespace LineTable

variable (table : LineTable)

/-- The bytes of the program. -/
def programSize : ℕ := table.size - table.program.header.programOffset

def findAddressCounted (address : UInt64) :
    (LineTable × Except LineError (Option Row)) × Work :=
  let (advance, work) := (Pass.start table.program).nextCounted table.program table.files
  match advance.answer with
  | none => (({ table with files := advance.files }, .ok none), work)
  | some (.error e) => (({ table with files := advance.files }, .error e), work)
  | some (.ok row) =>
    let ((files, answer), more) :=
      advance.pass.seekCounted table.program address advance.files row
    (({ table with files }, answer), work + more)

def scanCounted : (LineTable × Except LineError Unit) × Work :=
  let (ran, work) :=
    (Pass.start table.program).traceCounted table.program table.files.recordFullScan
  match ran.fault with
  | some e => (({ table with files := ran.files }, .error e), work)
  | none => (({ table with files := ran.files.markComplete }, .ok ()), work)

def getFileCounted (index : UInt64) : (LineTable × Except LineError FileEntry) × Work :=
  if (table.files.file? index).isSome ∨ table.files.complete then
    ((table, table.knownFile index), 0)
  else
    match table.scanCounted with
    | ((scanned, .error e), work) => ((scanned, .error e), work)
    | ((scanned, .ok ()), work) => ((scanned, scanned.knownFile index), work)

theorem findAddressCounted_value (address : UInt64) :
    (table.findAddressCounted address).1 = table.findAddress address := by
  rw [findAddress_eq_seek, findAddressCounted, seek, ← Pass.nextCounted_value]
  rcases (Pass.start table.program).nextCounted table.program table.files with
    ⟨⟨files, pass, _ | e | row⟩, work⟩
  · rfl
  · rfl
  · dsimp only
    rw [← Pass.seekCounted_value]

theorem scanCounted_value : table.scanCounted.1 = table.scan := by
  rw [scanCounted, scan, ← Pass.traceCounted_value]
  rcases (Pass.start table.program).traceCounted table.program table.files.recordFullScan with
    ⟨⟨moments, files, pass, _ | e⟩, work⟩ <;> rfl

theorem getFileCounted_value (index : UInt64) :
    (table.getFileCounted index).1 = table.getFile index := by
  rw [getFileCounted, getFile, ← scanCounted_value]
  split_ifs
  · rfl
  · rcases table.scanCounted with ⟨⟨scanned, e | _⟩, work⟩ <;> rfl

theorem findAddressCounted_within (address : UInt64) :
    (table.findAddressCounted address).2.Within table.programSize := by
  have hspends := (Pass.start table.program).nextCounted_spends table.program table.files
  rw [findAddressCounted]
  generalize (Pass.start table.program).nextCounted table.program table.files = counted
    at hspends ⊢
  rcases counted with ⟨⟨files, pass, _ | e | row⟩, work⟩
  · exact hspends.within
  · exact hspends.within
  · exact hspends.add_within (Pass.seekCounted_within _ _ _ _ _)

theorem findAddressCounted_rows {address : UInt64} {row : Row}
    (h : (table.findAddressCounted address).1.2 = .ok (some row)) :
    0 < (table.findAddressCounted address).2.rows := by
  have hrows := (Pass.start table.program).nextCounted_rows table.program table.files
  rw [findAddressCounted] at h ⊢
  generalize (Pass.start table.program).nextCounted table.program table.files = counted
    at h hrows ⊢
  rcases counted with ⟨⟨files, pass, _ | e | first⟩, work⟩
  · cases h
  · cases h
  · have hfirst : work.rows = 1 := hrows
    simp only [Work.rows_add, hfirst]
    exact Nat.le_add_right _ _

theorem scanCounted_within : table.scanCounted.2.Within table.programSize := by
  have hspends := (Pass.start table.program).traceCounted_spends table.program
    table.files.recordFullScan
  rw [scanCounted]
  generalize (Pass.start table.program).traceCounted table.program table.files.recordFullScan =
    counted at hspends ⊢
  rcases counted with ⟨⟨moments, files, pass, _ | e⟩, work⟩
  · exact hspends.within
  · exact hspends.within

theorem getFileCounted_within (index : UInt64) :
    (table.getFileCounted index).2.Within table.programSize := by
  have hscan := table.scanCounted_within
  rw [getFileCounted]
  split_ifs
  · exact Work.zero_within _
  · rcases hcounted : table.scanCounted with ⟨⟨scanned, e | _⟩, work⟩ <;>
      rw [hcounted] at hscan <;> exact hscan

end LineTable
end DwarfLines
