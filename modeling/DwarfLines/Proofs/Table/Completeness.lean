import Mathlib
import DwarfLines.Proofs.Table.Independence
import DwarfLines.Proofs.Table.Requests

/-!
# When a file table is complete

A file table is marked complete when a row ends with the last byte of the program, or when a scan
for a late file comes to the end. In both cases some pass has met every declaration, so what is
known then is all that an uninterrupted pass would know. A table whose program runs through is
scanned once at most, because the scan completes it. Both facts are kept by every operation: each
leaves the files alone, or takes them from somewhere along a trace, or looks up a file.
-/

namespace DwarfLines

/-- The file tables along a trace, up to the one that it leaves. -/
def Trace.tables (trace : Trace) : List FileTable := trace.moments.map (·.files) ++ [trace.files]

theorem Trace.files_mem_tables (trace : Trace) : trace.files ∈ trace.tables :=
  List.mem_append_right _ (List.mem_singleton_self _)

theorem Trace.search_files_mem_tables (trace : Trace) (address : UInt64) :
    (trace.search address).1.files ∈ trace.tables := by
  unfold search
  cases hfound : Moment.firstCovering address trace.moments with
  | none => exact trace.files_mem_tables
  | some found =>
    obtain ⟨seen, last, row⟩ := found
    obtain ⟨i, hi, rfl, -⟩ := Moment.exists_of_firstCovering hfound
    exact List.mem_append_left _ (List.mem_map_of_mem (List.getElem_mem hi))

/-- The entry with an index among all that there are, or why there is none. -/
def FileEntry.lookup (entries : List FileEntry) (index : UInt64) : Except LineError FileEntry :=
  match entries[index.toNat]? with
  | some entry => .ok entry
  | none => .error (.outOfRange index entries.length)

theorem LineTable.knownFile_eq (table : LineTable) (index : UInt64) :
    table.knownFile index = FileEntry.lookup table.files.files index := rfl

namespace FileTable

/-- A file table that remembers as much about passes as another one does. -/
structure Remembers (table other : FileTable) : Prop where
  complete : table.complete = other.complete
  fullScans : table.fullScans = other.fullScans

theorem Remembers.refl (table : FileTable) : table.Remembers table := ⟨rfl, rfl⟩

theorem Remembers.trans ⦃a b c : FileTable⦄ (hab : a.Remembers b) (hbc : b.Remembers c) :
    a.Remembers c :=
  ⟨hab.complete.trans hbc.complete, hab.fullScans.trans hbc.fullScans⟩

theorem Remembers.of_define {table next : FileTable} {start finish : ℕ} {record : FileRecord}
    (h : table.define start finish record = .ok next) : next.Remembers table := by
  rcases define_eq_ok h with ⟨-, rfl⟩ | ⟨-, entry, -, rfl⟩
  · exact .refl _
  · exact ⟨rfl, rfl⟩

theorem Covers.antisymm {table other : FileTable} (h : table.Covers other)
    (h' : other.Covers table) : table.Agrees other :=
  ⟨h.compDir, h.directories, h'.files.eq_of_length_le h.files.length_le,
    Nat.le_antisymm h'.definedThrough h.definedThrough⟩

end FileTable

namespace MachineState

variable (parameters : Parameters)

theorem step_remembers (state : MachineState) (c : Cursor) :
    (step parameters state c).1.files.Remembers state.files := by
  obtain ⟨registers, table⟩ := state
  rcases step_cases parameters registers c with
    ⟨next, result, hstep⟩ | ⟨record, finish, closing, -, -, -, hstep⟩
  · rw [hstep]
    exact .refl _
  · rw [hstep]
    cases hdefine : table.define c.offset finish record with
    | error e => exact .refl _
    | ok more => exact .of_define hdefine

/-- Instructions neither complete a file table nor count a scan. -/
theorem run_remembers (state : MachineState) (c : Cursor) :
    (run parameters state c).1.files.Remembers state.files :=
  run_files parameters FileTable.Remembers.refl FileTable.Remembers.trans
    (step_remembers parameters) state c

end MachineState

namespace Pass

theorem filesAfter_fullScans (files : FileTable) (last : Cursor) :
    (filesAfter files last).fullScans = files.fullScans := by
  unfold filesAfter
  split_ifs <;> rfl

theorem filesAfter_complete (files : FileTable) (last : Cursor) :
    (filesAfter files last).complete = (files.complete || last.atEnd) := by
  unfold filesAfter
  split_ifs with hend
  · simp [FileTable.markComplete, hend]
  · simp [hend]

def Exhausted (program : LineProgram) (pass : Pass) : Prop :=
  ∀ files, next program files pass = { files, pass, answer := none }

variable {program : LineProgram} {pass : Pass}

theorem exhausted_of_failed (h : pass.failed = true) : pass.Exhausted program :=
  next_of_failed h

theorem conclude_complete {before state : MachineState}
    {answer : Except LineError (Option Registers × Cursor)} (hle : pass.offset ≤ program.size)
    (hrun : MachineState.run program.header.toParameters before (program.cursorAt pass.offset) =
      (state, answer))
    (h : (pass.conclude (state, answer)).files.complete = true) :
    state.files.complete = true ∨ (pass.conclude (state, answer)).pass.Exhausted program := by
  rcases answer with e | ⟨row | row, last⟩
  · exact .inl h
  · exact .inl h
  · have hforward := (MachineState.run_lt hrun).1
    rw [conclude, finishRow_files, filesAfter_complete, Bool.or_eq_true] at h
    refine h.imp_right fun hend => ?_
    rw [program.eq_cursorAt hforward, program.atEnd_cursorAt] at hend
    rw [conclude]
    cases hfile : state.files.file? row.fileIndex with
    | none =>
      rw [finishRow_of_none _ hfile]
      exact exhausted_of_failed rfl
    | some file =>
      rw [finishRow_of_some _ hfile]
      exact next_of_isFinished (program.offset_le_size hforward hle)
        (by simp [isFinished, hend])

theorem conclude_fullScans (result : MachineState × Except LineError (Option Registers × Cursor)) :
    (pass.conclude result).files.fullScans = result.1.files.fullScans := by
  rcases result with ⟨state, e | ⟨row | row, last⟩⟩
  · rfl
  · rfl
  · rw [conclude, finishRow_files]
    exact filesAfter_fullScans _ _

theorem conclude_stays (result : MachineState × Except LineError (Option Registers × Cursor))
    (h : result.1.files.complete = true) : (pass.conclude result).files.complete = true := by
  rcases result with ⟨state, e | ⟨row | row, last⟩⟩
  · exact h
  · exact h
  · replace h : state.files.complete = true := h
    rw [conclude, finishRow_files, filesAfter_complete, h, Bool.true_or]

/-- A request counts no scan, takes back no completeness, and completes a file table only where
nothing is left to run. -/
theorem next_notes (program : LineProgram) (files : FileTable) (pass : Pass) :
    (next program files pass).files.fullScans = files.fullScans ∧
    (files.complete = true → (next program files pass).files.complete = true) ∧
    ((next program files pass).files.complete = true →
      files.complete = true ∨ (next program files pass).pass.Exhausted program) := by
  rcases next_cases program pass with ⟨after, answer, -, -, -, hnext⟩ | ⟨c, -, hat, -, hnext⟩
  · rw [hnext]
    exact ⟨rfl, id, .inl⟩
  · obtain ⟨hle, rfl⟩ := Reader.at?_eq_ok.1 hat
    rw [hnext]
    have hnotes := MachineState.run_remembers program.header.toParameters ⟨pass.registers, files⟩
      (program.cursorAt pass.offset)
    rw [LineProgram.cursorAt] at hnotes
    rcases hrun : MachineState.run program.header.toParameters ⟨pass.registers, files⟩
      ⟨pass.offset, program.bytes.drop pass.offset⟩ with ⟨state, answer⟩
    rw [hrun] at hnotes
    refine ⟨(conclude_fullScans _).trans hnotes.fullScans,
      fun h => conclude_stays _ (hnotes.complete.trans h), fun h => ?_⟩
    exact (conclude_complete hle hrun h).imp_left hnotes.complete.symm.trans

end Pass

namespace LineTable

variable {table : LineTable} {files : FileTable} {pass : Pass} {count reached : ℕ}

/-- The uninterrupted pass leaves what the lone pass knows at the end. -/
theorem trace_files_agrees (table : LineTable) :
    table.trace.files.Agrees (table.alone (0 + table.trace.moments.length + 1)).1 := by
  have hlast := table.trace_follows_alone.lastFiles
  rwa [Nat.zero_max] at hlast

/-- Where the lone pass is given no row, its table knows all that it will ever know. -/
theorem agrees_of_ended (h : ∀ row, table.answer count ≠ some (.ok row)) (hle : count < reached) :
    (table.alone reached).1.Agrees table.trace.files := by
  have hhere := alone_of_ended h (le_max_left (count + 1) (0 + table.trace.moments.length + 1))
  have hthere := alone_of_ended table.trace_ended
    (le_max_right (count + 1) (0 + table.trace.moments.length + 1))
  rw [(alone_of_ended h hle).1, ← hhere.1, hthere.1]
  exact table.trace_files_agrees.symm

theorem alone_of_answer_none (h : table.answer count = none) :
    table.alone (count + 1) = table.alone count := by
  rw [alone, Pass.next_of_answer_none h]

theorem agrees_of_exhausted (h : (table.alone count).2.Exhausted table.program)
    (hle : count ≤ reached) : (table.alone reached).1.Agrees table.trace.files := by
  have hnone : table.answer count = none := congrArg Advance.answer (h _)
  have hended : ∀ row, table.answer count ≠ some (.ok row) := by simp [hnone]
  rcases hle.eq_or_lt with rfl | hlt
  · rw [← alone_of_answer_none hnone]
    exact agrees_of_ended hended (Nat.lt_succ_self count)
  · exact agrees_of_ended hended hlt

theorem trace_files_covers (table : LineTable) (reached : ℕ) :
    table.trace.files.Covers (table.alone reached).1 := by
  rcases Nat.le_total reached (0 + table.trace.moments.length + 1) with hle | hle
  · exact table.trace_files_agrees.covers.trans (table.alone_covers hle)
  · rw [(alone_of_ended table.trace_ended hle).1]
    exact table.trace_files_agrees.covers

/-- A file table and a pass as they may be met in a session: the pass stands where the lone pass
stood, and the table has gone at least as far. -/
def Shares (table : LineTable) (files : FileTable) (pass : Pass) : Prop :=
  ∃ count reached, count ≤ reached ∧ files.Agrees (table.alone reached).1 ∧
    pass = (table.alone count).2

/-- What a trace keeps of the table it was begun on. -/
structure Traced (table : LineTable) (before files : FileTable) (pass : Pass) : Prop where
  shares : table.Shares files pass
  complete : files.complete = true → files.Agrees table.trace.files
  fullScans : files.fullScans = before.fullScans
  stays : before.complete = true → files.complete = true

theorem Traced.next {before : FileTable} (h : table.Traced before files pass) :
    table.Traced before (pass.next table.program files).files
      (pass.next table.program files).pass := by
  obtain ⟨count, reached, hle, hfiles, rfl⟩ := h.shares
  obtain ⟨hpass, -, hagrees⟩ := next_of_agrees hfiles hle
  obtain ⟨hscans, hstays, hcomplete⟩ :=
    Pass.next_notes table.program files (table.alone count).2
  have hcovers := Pass.next_covers table.program files (table.alone count).2
  refine ⟨⟨count + 1, _, le_max_right reached _, hagrees, hpass⟩, ?_, hscans.trans h.fullScans,
    fun hbefore => hstays (h.stays hbefore)⟩
  intro hdone
  rcases hcomplete hdone with hknown | hexhausted
  · have hall := (table.trace_files_covers (max reached (count + 1))).trans hagrees.symm.covers
    exact (hcovers.trans (h.complete hknown).covers).antisymm hall
  · rw [hpass] at hexhausted
    exact hagrees.trans (agrees_of_exhausted hexhausted (le_max_right _ _))

theorem Traced.trace {before : FileTable} (h : table.Traced before files pass) :
    ∀ met ∈ (pass.trace table.program files).tables, ∃ later, table.Traced before met later := by
  fun_induction Pass.trace table.program files pass with
  | case1 files pass advance hanswer =>
    intro met hmet
    rw [List.mem_singleton.mp hmet]
    exact ⟨_, h.next⟩
  | case2 files pass advance e hanswer =>
    intro met hmet
    rw [List.mem_singleton.mp hmet]
    exact ⟨_, h.next⟩
  | case3 files pass advance row hanswer hoffset rest ih =>
    intro met hmet
    rcases List.mem_cons.mp hmet with rfl | hmore
    · exact ⟨_, h.next⟩
    · exact ih h.next met hmore

/-- A file table that knows all that an uninterrupted pass would know once it says so. -/
def Truthful (table : LineTable) (files : FileTable) : Prop :=
  files.complete = true → files.Agrees table.trace.files

theorem Truthful.traced (h : table.Truthful files) (hshares : table.Shares files pass) :
    table.Traced files files pass :=
  ⟨hshares, h, rfl, id⟩

/-- What is known about a file table that a session has used for a while, if its program runs
through. -/
structure Ledger (table : LineTable) (files : FileTable) : Prop where
  complete : table.Truthful files
  fullScans_le : files.fullScans ≤ 1
  scanned : 0 < files.fullScans → files.complete = true

theorem Ledger.tables (h : table.Ledger files) (hshares : table.Shares files pass) :
    ∀ met ∈ (pass.trace table.program files).tables, table.Ledger met := by
  intro met hmet
  obtain ⟨later, hlater⟩ := (h.complete.traced hshares).trace met hmet
  refine ⟨hlater.complete, hlater.fullScans ▸ h.fullScans_le, fun hscanned => ?_⟩
  exact hlater.stays (h.scanned (hlater.fullScans ▸ hscanned))

variable {current : LineTable}

/-- A scan is counted. It fails where an uninterrupted pass fails, and is truthful then too, or it
runs through, and afterwards all files are known. -/
theorem Truthful.scan_cases (h : table.Truthful current.files)
    (hextends : current.Extends table reached) :
    (∃ (files : FileTable) (e : LineError), current.scan = ({ current with files }, .error e) ∧
      table.trace.fault = some e ∧ table.Truthful files) ∨
    ∃ files : FileTable, current.scan = ({ current with files := files.markComplete }, .ok ()) ∧
      table.trace.fault = none ∧ files.Agrees table.trace.files ∧
      files.fullScans = current.files.fullScans + 1 := by
  have hbegin := current.files.recordFullScan_agrees.trans hextends.files
  have hfollows : table.Follows 0 reached
      ((Pass.start current.program).trace current.program current.files.recordFullScan) := by
    rw [hextends.program]
    exact LineTable.trace_follows hbegin (Nat.zero_le _) rfl
  have htraced : table.Traced current.files.recordFullScan current.files.recordFullScan
      (Pass.start current.program) :=
    ⟨⟨0, reached, Nat.zero_le _, hbegin, by rw [hextends.program, alone]⟩,
      fun hdone => current.files.recordFullScan_agrees.trans (h hdone), rfl, id⟩
  obtain ⟨later, hlater⟩ := htraced.trace _ (Trace.files_mem_tables _)
  rw [← hextends.program] at hlater
  unfold LineTable.scan
  dsimp only
  generalize (Pass.start current.program).trace current.program current.files.recordFullScan =
    ran at hfollows hlater
  have hfault := (Trace.eq_of_answers_eq (hfollows.answers_eq table.trace_follows_alone)).2
  cases hran : ran.fault with
  | some e =>
    left
    exact ⟨ran.files, e, rfl, by rw [← hfault, hran], hlater.complete⟩
  | none =>
    right
    have hlast : ∀ row, table.answer (0 + ran.moments.length) ≠ some (.ok row) := by
      intro row
      rw [hfollows.fault, hran]
      simp
    refine ⟨ran.files, rfl, by rw [← hfault, hran], ?_, hlater.fullScans⟩
    exact hfollows.lastFiles.trans (agrees_of_ended hlast (by omega))

theorem Truthful.scan_of_plain (h : table.Truthful current.files)
    (hextends : current.Extends table reached) (hfault : table.trace.fault = none) :
    ∃ files : FileTable, current.scan = ({ current with files := files.markComplete }, .ok ()) ∧
      files.Agrees table.trace.files ∧ files.fullScans = current.files.fullScans + 1 := by
  rcases h.scan_cases hextends with ⟨files, e, -, he, -⟩ | ⟨files, hscan, -, hagrees, hscans⟩
  · rw [hfault] at he
    cases he
  · exact ⟨files, hscan, hagrees, hscans⟩

/-- A request for a file keeps a file table truthful, also if it runs into a fault. -/
theorem Truthful.getFile (h : table.Truthful current.files)
    (hextends : current.Extends table reached) (index : UInt64) :
    table.Truthful (current.getFile index).1.files := by
  unfold LineTable.getFile
  split_ifs
  · exact h
  · rcases h.scan_cases hextends with ⟨files, e, hscan, -, htruthful⟩ | ⟨files, hscan, -, hall, -⟩
    · rw [hscan]
      exact htruthful
    · rw [hscan]
      intro _
      exact files.markComplete_agrees.trans hall

theorem Ledger.getFile (h : table.Ledger current.files) (hextends : current.Extends table reached)
    (hfault : table.trace.fault = none) (index : UInt64) :
    table.Ledger (current.getFile index).1.files := by
  unfold LineTable.getFile
  split_ifs with hknown
  · exact h
  · obtain ⟨files, hscan, hagrees, hscans⟩ := h.complete.scan_of_plain hextends hfault
    rw [hscan]
    have hfirst : current.files.fullScans = 0 := by
      by_contra hne
      exact hknown (.inr (h.scanned (Nat.pos_of_ne_zero hne)))
    refine ⟨fun _ => files.markComplete_agrees.trans hagrees, ?_, fun _ => rfl⟩
    exact (hscans.trans (by omega)).le

/-- The answer to a request for a file, in whatever way it is found. -/
theorem Ledger.getFile_eq (h : table.Ledger current.files)
    (hextends : current.Extends table reached) (hfault : table.trace.fault = none)
    (index : UInt64) :
    (current.getFile index).2 = FileEntry.lookup table.trace.files.files index := by
  have hanswer {final : LineTable} (hall : final.files.Agrees table.trace.files) :
      final.knownFile index = FileEntry.lookup table.trace.files.files index := by
    rw [knownFile_eq, hall.files]
  unfold LineTable.getFile
  split_ifs with hknown
  · rcases hknown with hfile | hcomplete
    · obtain ⟨entry, hentry⟩ := Option.isSome_iff_exists.mp hfile
      have hcovers := (table.trace_files_covers reached).trans hextends.files.symm.covers
      have hlast : table.trace.files.files[index.toNat]? = some entry := hcovers.file? hentry
      rw [knownFile, hentry, FileEntry.lookup, hlast]
    · exact hanswer (h.complete hcomplete)
  · obtain ⟨files, hscan, hagrees, -⟩ := h.complete.scan_of_plain hextends hfault
    rw [hscan]
    exact hanswer (files.markComplete_agrees.trans hagrees)

end LineTable
end DwarfLines
