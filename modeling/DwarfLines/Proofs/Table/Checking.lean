import Mathlib
import DwarfLines.Proofs.Machine.Checking
import DwarfLines.Proofs.Table.LonePass
import DwarfLines.Report.Table

/-!
# Working with a table, checked

Passes, searches and scans come to runs of the program of a table, so they abort only where a run
does. They add no error of their own that is there for what is supposed not to occur.
-/

namespace DwarfLines

/-! ### Passes -/

section Passes

variable {program : LineProgram}

def Pass.next? (program : LineProgram) (files : FileTable) (pass : Pass) : Option Advance :=
  if pass.failed then
    some { files, pass, answer := none }
  else
    match Cursor.at? program.bytes pass.offset with
    | .error e =>
      some { files, pass := { pass with failed := true }, answer := some (.error (.read e)) }
    | .ok c =>
      if c.atEnd then
        some { files, pass, answer := none }
      else do
        let result ← MachineState.run? program.header.toParameters ⟨pass.registers, files⟩ c
        return pass.conclude result

theorem Pass.comesTo_next? (files : FileTable) (pass : Pass) :
    ComesTo program.header.toParameters.DividesSafely (pass.next? program files)
      (pass.next program files) := by
  unfold next?
  split_ifs with hfailed
  · rw [next_of_failed hfailed]
    exact comesTo_some _
  · cases hat : Cursor.at? program.bytes pass.offset with
    | error e =>
      have hnext : pass.next program files =
          { files, pass := { pass with failed := true }, answer := some (.error (.read e)) } := by
        simp [next, hfailed, hat]
      rw [hnext]
      exact comesTo_some _
    | ok c =>
      dsimp only
      split_ifs with hend
      · rw [next_of_end hat hend]
        exact comesTo_some _
      · rw [next_of_place (by simpa using hfailed) hat (by simpa using hend)]
        exact (MachineState.comesTo_run? _ c).bind (comesTo_some _)

theorem Pass.offset_of_next? {files : FileTable} {pass : Pass} {advance : Advance} {row : Row}
    (h : pass.next? program files = some advance) (hanswer : advance.answer = some (.ok row)) :
    pass.offset < advance.pass.offset ∧ advance.pass.offset ≤ program.size := by
  obtain rfl := (comesTo_next? files pass).eq _ h
  exact next_offset hanswer

def Pass.trace? (program : LineProgram) (files : FileTable) (pass : Pass) : Option Trace :=
  match h : pass.next? program files with
  | none => none
  | some advance =>
    match hanswer : advance.answer with
    | none => some { moments := [], files := advance.files, pass := advance.pass, fault := none }
    | some (.error e) =>
      some { moments := [], files := advance.files, pass := advance.pass, fault := some e }
    | some (.ok row) => do
      have := offset_of_next? h hanswer
      let rest ← trace? program advance.files advance.pass
      return { rest with moments := ⟨row, advance.files, advance.pass⟩ :: rest.moments }
termination_by program.size - pass.offset

theorem Pass.comesTo_trace? (files : FileTable) (pass : Pass) :
    ComesTo program.header.toParameters.DividesSafely (pass.trace? program files)
      (pass.trace program files) := by
  fun_induction trace? program files pass with
  | case1 files pass hnone =>
    exact (comesTo_next? files pass).of_none hnone _
  | case2 files pass advance hsome hanswer =>
    rw [trace_eq, ← (comesTo_next? files pass).eq _ hsome, Advance.trace, hanswer]
    exact comesTo_some _
  | case3 files pass advance hsome e hanswer =>
    rw [trace_eq, ← (comesTo_next? files pass).eq _ hsome, Advance.trace, hanswer]
    exact comesTo_some _
  | case4 files pass advance hsome row hanswer hoffset ih =>
    rw [trace_eq, ← (comesTo_next? files pass).eq _ hsome, Advance.trace, hanswer]
    exact ih.bind (comesTo_some _)

end Passes

/-! ### Tables -/

namespace LineTable

variable (table : LineTable)

/-- What is left of a table and found, after a search ran a part of its trace. -/
def concludeSearch (searched : Trace × Option Row) :
    LineTable × Except LineError (Option Row) :=
  ({ table with files := searched.1.files },
    match searched.2, searched.1.fault with
    | some row, _ => .ok (some row)
    | none, some e => .error e
    | none, none => .ok none)

def concludeScan (ran : Trace) : LineTable × Except LineError Unit :=
  match ran.fault with
  | some e => ({ table with files := ran.files }, .error e)
  | none => ({ table with files := ran.files.markComplete }, .ok ())

def trace? : Option Trace := (Pass.start table.program).trace? table.program table.files

def findAddress? (address : UInt64) : Option (LineTable × Except LineError (Option Row)) := do
  let trace ← table.trace?
  return table.concludeSearch (trace.search address)

def scan? : Option (LineTable × Except LineError Unit) := do
  let ran ← (Pass.start table.program).trace? table.program table.files.recordFullScan
  return table.concludeScan ran

def getFile? (index : UInt64) : Option (LineTable × Except LineError FileEntry) :=
  if (table.files.file? index).isSome ∨ table.files.complete then
    some (table, table.knownFile index)
  else do
    match ← table.scan? with
    | (scanned, .error e) => return (scanned, .error e)
    | (scanned, .ok ()) => return (scanned, scanned.knownFile index)

theorem comesTo_trace? :
    ComesTo table.program.header.toParameters.DividesSafely table.trace? table.trace :=
  Pass.comesTo_trace? _ _

theorem comesTo_findAddress? (address : UInt64) :
    ComesTo table.program.header.toParameters.DividesSafely (table.findAddress? address)
      (table.findAddress address) :=
  table.comesTo_trace?.bind (comesTo_some _)

theorem comesTo_scan? :
    ComesTo table.program.header.toParameters.DividesSafely table.scan? table.scan :=
  (Pass.comesTo_trace? _ _).bind (comesTo_some _)

theorem comesTo_getFile? (index : UInt64) :
    ComesTo table.program.header.toParameters.DividesSafely (table.getFile? index)
      (table.getFile index) := by
  unfold getFile? getFile
  split_ifs
  · exact comesTo_some _
  · apply table.comesTo_scan?.bind
    rcases table.scan with ⟨scanned, e | _⟩ <;> exact comesTo_some _

end LineTable

/-! ### Errors of passes, searches and reports -/

section Errors

variable {program : LineProgram}

theorem Pass.external_conclude (pass : Pass)
    {result : MachineState × Except LineError (Option Registers × Cursor)}
    (h : External result.2) {e : LineError} (he : (pass.conclude result).answer = some (.error e)) :
    e.isInternal = false := by
  rcases result with ⟨state, fault | ⟨_ | row, last⟩⟩
  · cases he
    exact h e rfl
  · cases he
    rfl
  · have hanswer : (finishRow state row last).answer = some (.error e) := he
    cases hfile : state.files.file? row.fileIndex with
    | none =>
      rw [finishRow_of_none _ hfile] at hanswer
      cases hanswer
      rfl
    | some file =>
      rw [finishRow_of_some _ hfile] at hanswer
      cases hanswer

theorem Pass.external_next (hrange : program.header.lineRange ≠ 0) (files : FileTable)
    (pass : Pass) {e : LineError} (he : (pass.next program files).answer = some (.error e)) :
    e.isInternal = false := by
  by_cases hfailed : pass.failed = true
  · rw [next_of_failed hfailed] at he
    cases he
  · cases hat : Cursor.at? program.bytes pass.offset with
    | error cause =>
      have hread : e = .read cause := by simpa [next, hfailed, hat, eq_comm] using he
      rw [hread]
      rfl
    | ok c =>
      by_cases hend : c.atEnd = true
      · rw [next_of_end hat hend] at he
        cases he
      · rw [next_of_place (by simpa using hfailed) hat (by simpa using hend)] at he
        exact pass.external_conclude (MachineState.external_run hrange _ c) he

theorem Pass.external_trace (hrange : program.header.lineRange ≠ 0) (files : FileTable)
    (pass : Pass) {e : LineError} (he : (pass.trace program files).fault = some e) :
    e.isInternal = false := by
  fun_induction trace program files pass with
  | case1 => cases he
  | case2 files pass advance fault hanswer =>
    cases he
    exact external_next hrange files pass hanswer
  | case3 files pass advance row hanswer hoffset rest ih => exact ih he

namespace LineTable

variable (table : LineTable)

theorem external_findAddress (hrange : table.program.header.lineRange ≠ 0) (address : UInt64) :
    External (table.findAddress address).2 := by
  have htrace {e : LineError} (he : (table.search address).1.fault = some e) :
      e.isInternal = false := by
    unfold search Trace.search at he
    split at he
    · cases he
    · exact Pass.external_trace hrange _ _ he
  unfold findAddress
  dsimp only
  split
  · exact external_ok _
  · exact external_error (htrace ‹_›)
  · exact external_ok _

theorem external_scan (hrange : table.program.header.lineRange ≠ 0) : External table.scan.2 := by
  unfold scan
  dsimp only
  split
  · exact external_error (Pass.external_trace hrange _ _ ‹_›)
  · exact external_ok _

theorem external_knownFile (index : UInt64) : External (table.knownFile index) := by
  unfold knownFile
  split
  · exact external_ok _
  · exact external_error rfl

theorem external_getFile (hrange : table.program.header.lineRange ≠ 0) (index : UInt64) :
    External (table.getFile index).2 := by
  have hscan := table.external_scan hrange
  unfold getFile
  split_ifs
  · exact table.external_knownFile index
  · rcases hresult : table.scan with ⟨scanned, e | _⟩
    · rw [hresult] at hscan
      exact external_error (hscan e rfl)
    · exact scanned.external_knownFile index

theorem external_digest (file : FileEntry) : External (table.digest file) := by
  unfold digest
  split
  · exact external_ok _
  · exact external_ofRead _

theorem external_fileLines {e : LineError} (he : table.fileLines.2 = some e) :
    e.isInternal = false := by
  have hgo (index : ℕ) (files : List FileEntry) (h : (fileLines.go table index files).2 = some e) :
      e.isInternal = false := by
    induction files generalizing index with
    | nil => cases h
    | cons file rest ih =>
      have hline : External (table.fileLine index file) :=
        (table.external_digest file).bind fun _ => external_ok _
      rw [fileLines.go] at h
      cases hshown : table.fileLine index file with
      | error fault =>
        rw [hshown] at h
        cases h
        exact hline e hshown
      | ok line =>
        rw [hshown] at h
        exact ih (index + 1) h
  exact hgo 0 _ he

end LineTable

end Errors

end DwarfLines
