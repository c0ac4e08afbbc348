import Mathlib
import DwarfLines.Proofs.Header.Acceptance
import DwarfLines.Proofs.Machine.Declarations
import DwarfLines.Proofs.Table.Completeness
import DwarfLines.Proofs.Table.ProgramTrace

/-!
# Looking up a file

However far the passes of a session have run, a file is found by its index among the files of the
header followed by the declarations of the program. It is known already, or a scan finds it, or
the table is known to be complete and has no such file. A session scans once at most.
-/

namespace DwarfLines

/-- The file records that a program declares, in the order of its instructions. -/
def LineProgram.declarations (program : LineProgram) : List FileRecord :=
  Instruction.declarations program.header.toParameters
    (Instruction.listFrom program.header.toParameters
      (program.cursorAt program.header.programOffset))

namespace Pass

/-- A pass that runs through adds what the instructions after its place declare. -/
theorem trace_declares {program : LineProgram} {files : FileTable} {pass : Pass}
    (hfailed : pass.failed = false) (hle : files.definedThrough ≤ pass.offset)
    (hfault : (pass.trace program files).fault = none) :
    (pass.trace program files).files.GrownBy files
      (Instruction.declarations program.header.toParameters
        (Instruction.listFrom program.header.toParameters (program.cursorAt pass.offset))) := by
  fun_induction Pass.trace program files pass with
  | case1 files pass advance hanswer =>
    have hfinished := isFinished_of_next hanswer
    rw [isFinished, hfailed, Bool.false_or, decide_eq_true_eq] at hfinished
    have hagrees : advance.files.Agrees files :=
      congrArg Advance.files (next_of_answer_none hanswer) ▸ .refl files
    rw [Instruction.listFrom_of_atEnd (program.atEnd_cursorAt.mpr hfinished)]
    exact hagrees.grownBy
  | case2 files pass advance e hanswer => cases hfault
  | case3 files pass advance row hanswer hoffset rest ih =>
    obtain ⟨state, last, hgives⟩ := exists_givesRow hanswer
    obtain ⟨passed, hlist, hgrown, hthrough⟩ := MachineState.run_declares hgives.run hle
    have hafter : advance.files.Agrees state.files :=
      congrArg Advance.files hgives.next ▸ filesAfter_agrees _ _
    have hplace : advance.pass.offset = last := congrArg (·.pass.offset) hgives.next
    have hstill : advance.pass.failed = false := congrArg (·.pass.failed) hgives.next
    have hdefined : advance.files.definedThrough ≤ advance.pass.offset := by
      rw [hafter.definedThrough, hplace]
      exact hthrough
    have hmore := ih hstill hdefined hfault
    rw [hplace] at hmore
    rw [hlist, Instruction.declarations_append]
    exact (hgrown.agrees_trans hafter).append hmore

theorem next_files_mem_tables (program : LineProgram) (files : FileTable) (pass : Pass) :
    (pass.next program files).files ∈ (pass.trace program files).tables := by
  rw [trace_eq, Advance.trace]
  split
  · exact Trace.files_mem_tables _
  · exact Trace.files_mem_tables _
  · exact List.mem_cons_self

end Pass

namespace Session

variable {session : Session}

/-- Where the files of a table may come from that an operation leaves. -/
inductive Yields (session : Session) (current : LineTable) : FileTable → Prop
  | same : Yields session current current.files
  | traced {pass : Pass} {files : FileTable}
    (stands : pass = Pass.start current.program ∨ ∃ id, session.pass? id = some pass)
    (met : files ∈ (pass.trace current.program current.files).tables) :
    Yields session current files
  | looked (index : UInt64) : Yields session current (current.getFile index).1.files

/-- What an operation leaves as the files of the table comes from the table before. -/
theorem shared_of_perform {operation : Operation} {later : LineTable}
    (h : (session.perform operation).1.shared = some later) :
    ∃ current, session.shared = some current ∧ session.Yields current later.files := by
  have hperforms := session.performs operation
  generalize (session.perform operation).1 = left at h hperforms
  generalize (session.perform operation).2 = outcome at hperforms
  cases hperforms with
  | rows hshared =>
    rw [files_of_setFiles hshared h]
    exact ⟨_, hshared, .traced (.inl rfl) (Trace.files_mem_tables _)⟩
  | next id hshared hpass =>
    rw [files_of_setFiles hshared h]
    exact ⟨_, hshared, .traced (.inr ⟨id, hpass⟩) (Pass.next_files_mem_tables _ _ _)⟩
  | drain id hshared hpass =>
    rw [files_of_setFiles hshared h]
    exact ⟨_, hshared, .traced (.inr ⟨id, hpass⟩) (Trace.files_mem_tables _)⟩
  | find address hshared =>
    rw [files_of_setFiles hshared h]
    exact ⟨_, hshared, .traced (.inl rfl) (Trace.search_files_mem_tables _ address)⟩
  | file index hshared =>
    rw [files_of_setFiles hshared h]
    exact ⟨_, hshared, .looked index⟩
  | drop id => exact ⟨later, shared_of_release (session.removePass id) h, .same⟩
  | dropHandle => exact ⟨later, shared_of_release { session with held := false } h, .same⟩
  | _ => exact ⟨later, h, .same⟩

end Session

namespace Chronicle

variable {table : LineTable} {chronicle : Chronicle} {reached : ℕ}

/-- What a chronicle keeps besides if the program runs through: the account of its file table. -/
def Accounts (table : LineTable) (chronicle : Chronicle) : Prop :=
  ∀ current, chronicle.session.shared = some current → table.Ledger current.files

theorem Keeps.shares (h : chronicle.Keeps table reached) {current : LineTable}
    (hshared : chronicle.session.shared = some current) {pass : Pass}
    (hstands : pass = Pass.start current.program ∨
      ∃ id, chronicle.session.pass? id = some pass) :
    table.Shares current.files pass := by
  have hextends := h.shared current hshared
  rcases hstands with rfl | ⟨id, hpass⟩
  · exact ⟨0, reached, Nat.zero_le _, hextends.files, by rw [hextends.program, LineTable.alone]⟩
  · obtain ⟨hle, hplace⟩ := h.place id pass hpass
    exact ⟨_, reached, hle, hextends.files, hplace⟩

theorem Keeps.accounts (h : chronicle.Keeps table reached) (hfault : table.trace.fault = none)
    (haccounts : chronicle.Accounts table) (operation : Operation) :
    (chronicle.perform operation).Accounts table := by
  intro later hlater
  obtain ⟨current, hshared, hyields⟩ := Session.shared_of_perform hlater
  have hledger := haccounts current hshared
  have hextends := h.shared current hshared
  generalize later.files = files at hyields
  cases hyields with
  | same => exact hledger
  | traced hstands hmet =>
    rw [hextends.program] at hmet
    exact hledger.tables (h.shares hshared hstands) _ hmet
  | looked index => exact hledger.getFile hextends hfault index

theorem Keeps.accounts_performAll (h : chronicle.Keeps table reached)
    (hfault : table.trace.fault = none) (haccounts : chronicle.Accounts table)
    (operations : List Operation) :
    (chronicle.performAll operations).Accounts table := by
  induction operations generalizing chronicle reached with
  | nil => exact haccounts
  | cons operation rest ih =>
    obtain ⟨more, -, hkept, -⟩ := h.perform operation
    exact ih hkept (h.accounts hfault haccounts operation)

end Chronicle

namespace LineTable

theorem ledger_of_fresh {table : LineTable} (h : table.files.Fresh) : table.Ledger table.files := by
  refine ⟨fun hcomplete => ?_, h.fullScans ▸ Nat.zero_le 1, fun hscanned => ?_⟩
  · rw [h.complete] at hcomplete
    cases hcomplete
  · rw [h.fullScans] at hscanned
    exact absurd hscanned (lt_irrefl 0)

/-- Whatever was done in a session with a table whose program runs through, a file is looked up
among the files of the header and the declarations of the program, and the table was scanned once
at most. -/
theorem getFile_of_session {order : ByteOrder} {lines : List UInt8} {offset : ℕ}
    {context : UnitContext} {table : LineTable}
    (hparse : parse order lines offset context = .ok table)
    (hfault : table.trace.fault = none) :
    ∃ late, table.files.legacyFiles table.program.declarations = .ok late ∧
      ∀ operations current,
        ((Session.ofTable table).performAll operations).shared = some current →
        current.files.fullScans ≤ 1 ∧
        ∀ index, (current.getFile index).2 =
          FileEntry.lookup (table.files.files ++ late) index := by
  obtain ⟨-, hfresh⟩ := fresh_of_parse hparse
  have hdefined : table.files.definedThrough ≤ (Pass.start table.program).offset :=
    hfresh.definedThrough.trans_le (Nat.zero_le _)
  have hgrown := Pass.trace_declares rfl hdefined hfault
  obtain ⟨late, hlate, hfiles⟩ := hgrown.files
  refine ⟨late, hlate, fun operations current hcurrent => ?_⟩
  have hkept := Chronicle.start_keeps table
  have haccounts : (Chronicle.start table).Accounts table := by
    intro first hfirst
    cases hfirst
    exact ledger_of_fresh hfresh
  obtain ⟨reached, -, hlast⟩ := hkept.performAll operations
  have hsession :
      ((Chronicle.start table).performAll operations).session.shared = some current := by
    rw [Chronicle.session_performAll]
    exact hcurrent
  have hledger := hkept.accounts_performAll hfault haccounts operations current hsession
  refine ⟨hledger.fullScans_le, fun index => ?_⟩
  rw [hledger.getFile_eq (hlast.shared current hsession) hfault, trace, hfiles]

/-- A unit with one late file, of which an operation has seen nothing: the file is found, and the
index after it is not. -/
theorem getFile_finds_late_file :
    ∃ table, LineTable.parse .little
        [26, 0, 0, 0, 2, 0, 8, 0, 0, 0, 1, 1, 0, 1, 2, 0, 0, 0,
          0, 6, 3, 97, 0, 0, 0, 0, 1, 0, 1, 1] 0 { compDir := "/", name := "u" } = .ok table ∧
      table.trace.fault = none ∧
      ∀ operations current,
        ((Session.ofTable table).performAll operations).shared = some current →
        current.files.fullScans ≤ 1 ∧
        (current.getFile 1).2 = .ok { path := "/a", directoryIndex := 0 } ∧
        (current.getFile 2).2 = .error (.outOfRange 2 2) := by
  have hknown : (LineTable.parse .little
      [26, 0, 0, 0, 2, 0, 8, 0, 0, 0, 1, 1, 0, 1, 2, 0, 0, 0,
        0, 6, 3, 97, 0, 0, 0, 0, 1, 0, 1, 1] 0 { compDir := "/", name := "u" }).map
        (fun table => (table.trace.fault, table.files.files,
          table.files.legacyFiles table.program.declarations)) =
      .ok (none, [{ path := "/u", directoryIndex := 0 }],
        .ok [{ path := "/a", directoryIndex := 0 }]) := by
    decide +kernel
  cases hparse : LineTable.parse .little
      [26, 0, 0, 0, 2, 0, 8, 0, 0, 0, 1, 1, 0, 1, 2, 0, 0, 0,
        0, 6, 3, 97, 0, 0, 0, 0, 1, 0, 1, 1] 0 { compDir := "/", name := "u" } with
  | error e => simp [hparse, Except.map] at hknown
  | ok table =>
  simp only [hparse, Except.map, Except.ok.injEq, Prod.mk.injEq] at hknown
  obtain ⟨hfault, hfiles, hdeclared⟩ := hknown
  obtain ⟨late, hlate, hsession⟩ := getFile_of_session hparse hfault
  obtain rfl := Except.ok.inj (hdeclared.symm.trans hlate)
  refine ⟨table, rfl, hfault, fun operations current hcurrent => ?_⟩
  obtain ⟨hscans, hfile⟩ := hsession operations current hcurrent
  rw [hfiles] at hfile
  exact ⟨hscans, hfile 1, hfile 2⟩

end LineTable
end DwarfLines
