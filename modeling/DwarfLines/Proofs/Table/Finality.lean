import Mathlib
import DwarfLines.Proofs.Table.FileLookup

/-!
# Completeness is final

A file table that says it is complete knows every declaration of its program, and from then on no
operation changes it: passes meet only what was met before, and a look-up has no reason to scan.
Every pass that comes to the plain end of a program has completed the file table on its way, since
the row that ends with the last byte of the program does so. The pass that a look-up of a file makes
for itself completes it, too, once it has met no fault.
-/

namespace DwarfLines

theorem FileTable.eq_of_agrees {table other : FileTable} (h : table.Agrees other)
    (hremembers : table.Remembers other) : table = other := by
  obtain ⟨compDir, directories, files, complete, definedThrough, fullScans⟩ := table
  obtain ⟨hcomp, hdirs, hfiles, hthrough⟩ := h
  obtain ⟨hcomplete, hscans⟩ := hremembers
  simp only at hcomp hdirs hfiles hthrough hcomplete hscans
  subst hcomp hdirs hfiles hthrough hcomplete hscans
  rfl

namespace LineTable

variable {table : LineTable} {files : FileTable} {pass : Pass}

theorem Truthful.eq_of_complete (h : table.Truthful files) (hshares : table.Shares files pass)
    (hcomplete : files.complete = true) :
    ∀ met ∈ (pass.trace table.program files).tables, met = files := by
  intro met hmet
  obtain ⟨later, hlater⟩ := (h.traced hshares).trace met hmet
  have hdone := hlater.stays hcomplete
  have hagrees := (hlater.complete hdone).trans (h hcomplete).symm
  exact FileTable.eq_of_agrees hagrees ⟨hdone.trans hcomplete.symm, hlater.fullScans⟩

theorem getFile_of_complete {current : LineTable} (h : current.files.complete = true)
    (index : UInt64) : (current.getFile index).1 = current := by
  unfold getFile
  rw [if_pos (Or.inr h)]

/-- A file that is not known is looked for by a pass, and if that meets no fault it completes the
file table. -/
theorem complete_of_scan {current : LineTable} {index : UInt64}
    (hunknown : current.files.file? index = none)
    (hplain : ((Pass.start current.program).trace current.program
      current.files.recordFullScan).fault = none) :
    (current.getFile index).1.files.complete = true := by
  by_cases hcomplete : current.files.complete = true
  · rw [getFile_of_complete hcomplete]
    exact hcomplete
  · have hscans : ¬ ((current.files.file? index).isSome ∨ current.files.complete) := by
      simp [hunknown, hcomplete]
    rw [getFile, if_neg hscans, scan, hplain]
    rfl

end LineTable

namespace Pass

variable {program : LineProgram} {files other : FileTable} {pass : Pass}

/-- A pass that did not come to the plain end of its program, or that has completed its file
table. -/
def Settled (program : LineProgram) (files : FileTable) (pass : Pass) : Prop :=
  pass.failed = false → program.size ≤ pass.offset → files.complete = true

theorem settled_start (h : program.header.programOffset < program.size) (files : FileTable) :
    (start program).Settled program files := by
  intro _ hend
  exact absurd h (Nat.not_lt.mpr hend)

theorem settled_of_failed (h : pass.failed = true) : pass.Settled program files := by
  intro hfresh
  rw [h] at hfresh
  cases hfresh

theorem Settled.mono (h : pass.Settled program files)
    (hstays : files.complete = true → other.complete = true) : pass.Settled program other := by
  intro hfresh hend
  exact hstays (h hfresh hend)

/-- A request either fails, or changes nothing, or gives a row, and the row that ends with the last
byte completes the file table. -/
theorem Settled.next (h : pass.Settled program files) :
    (pass.next program files).pass.Settled program (pass.next program files).files := by
  cases hanswer : (pass.next program files).answer with
  | none =>
    rw [next_of_answer_none hanswer]
    exact h
  | some answer =>
    cases answer with
    | error e =>
      apply settled_of_failed
      rcases next_outcome program files pass with hnext | ⟨hfailed, -⟩ | ⟨row, hrow, -⟩
      · rw [hnext] at hanswer
        cases hanswer
      · exact hfailed
      · rw [hrow] at hanswer
        cases hanswer
    | ok row =>
      obtain ⟨state, last, hgives⟩ := exists_givesRow hanswer
      rw [hgives.next]
      intro _ hend
      have hlast := program.atEnd_cursorAt.mpr hend
      rw [filesAfter_complete, hlast, Bool.or_true]

theorem Settled.trace (h : pass.Settled program files) :
    (pass.trace program files).pass.Settled program (pass.trace program files).files := by
  fun_induction Pass.trace program files pass with
  | case1 files pass advance hanswer => exact h.next
  | case2 files pass advance e hanswer => exact h.next
  | case3 files pass advance row hanswer hoffset rest ih => exact ih h.next

theorem trace_of_plain (hfault : (pass.trace program files).fault = none) :
    (pass.trace program files).pass.isFinished program = true ∧
      (pass.trace program files).pass.failed = pass.failed := by
  fun_induction Pass.trace program files pass with
  | case1 files pass advance hanswer =>
    have hnext : advance.pass = pass := congrArg Advance.pass (next_of_answer_none hanswer)
    rw [hnext]
    exact ⟨isFinished_of_next hanswer, rfl⟩
  | case2 files pass advance e hanswer => cases hfault
  | case3 files pass advance row hanswer hoffset rest ih =>
    obtain ⟨state, last, hgives⟩ := exists_givesRow hanswer
    obtain ⟨hfinished, hfailed⟩ := ih hfault
    have hstill : advance.pass.failed = false := congrArg (·.pass.failed) hgives.next
    exact ⟨hfinished, hfailed.trans (hstill.trans hgives.failed.symm)⟩

theorem Settled.complete_of_finished (h : pass.Settled program files) (hfresh : pass.failed = false)
    (hfinished : pass.isFinished program = true) : files.complete = true := by
  rw [isFinished, hfresh, Bool.false_or, decide_eq_true_eq] at hfinished
  exact h hfresh hfinished

theorem Settled.complete_of_plain (h : pass.Settled program files)
    (hfault : (pass.trace program files).fault = none)
    (hfresh : (pass.trace program files).pass.failed = false) :
    (pass.trace program files).files.complete = true :=
  h.trace.complete_of_finished hfresh (trace_of_plain hfault).1

end Pass

namespace Session

variable {session : Session}

/-- Where a pass may come from that an operation leaves together with a file table. -/
inductive Descends (session : Session) (later : LineTable) (pass : Pass) : Prop
  | kept {id : ℕ} (h : session.pass? id = some pass)
  | begun (h : pass = Pass.start later.program)
  | asked {id : ℕ} {current : LineTable} {old : Pass} (hshared : session.shared = some current)
    (hold : session.pass? id = some old)
    (hfiles : later.files = (old.next current.program current.files).files)
    (hpass : pass = (old.next current.program current.files).pass)
  | drained {id : ℕ} {current : LineTable} {old : Pass} (hshared : session.shared = some current)
    (hold : session.pass? id = some old)
    (hfiles : later.files = (old.trace current.program current.files).files)
    (hpass : pass = (old.trace current.program current.files).pass)

/-- Every pass that an operation leaves was there, or is new, or was moved on by the operation. -/
theorem descends_of_perform {operation : Operation} {later : LineTable} {id : ℕ} {pass : Pass}
    (hlater : (session.perform operation).1.shared = some later)
    (h : (session.perform operation).1.pass? id = some pass) : session.Descends later pass := by
  have hperforms := session.performs operation
  generalize (session.perform operation).1 = left at hlater h hperforms
  generalize (session.perform operation).2 = outcome at hperforms
  cases hperforms with
  | start number hshared =>
    rcases pass?_setPass h with rfl | hkept
    · obtain rfl := Option.some.inj (hshared.symm.trans hlater)
      exact .begun rfl
    · exact .kept hkept
  | next number hshared hold =>
    rcases pass?_setPass h with rfl | hkept
    · exact .asked hshared hold (files_of_setFiles hshared hlater) rfl
    · exact .kept hkept
  | drain number hshared hold =>
    rcases pass?_setPass h with rfl | hkept
    · exact .drained hshared hold (files_of_setFiles hshared hlater) rfl
    · exact .kept hkept
  | clone number source hold =>
    rcases pass?_setPass h with rfl | hkept
    · exact .kept hold
    · exact .kept hkept
  | drop number =>
    rw [pass?_release] at h
    exact .kept (session.pass?_of_removePass h)
  | dropHandle =>
    rw [pass?_release] at h
    exact .kept h
  | _ => exact .kept h

end Session

/-- Whether an outcome tells of a pass that came to the plain end of its program. What a look-up of
a file gives does not tell whether it made a pass. -/
def Outcome.ReachesEnd : Outcome → Prop
  | advanced pass answer => answer = none ∧ pass.failed = false
  | drained trace => trace.fault = none ∧ trace.pass.failed = false
  | found answer => answer = .ok none
  | _ => False

theorem LineTable.findAddress_of_none {table : LineTable} {address : UInt64}
    (h : (table.findAddress address).2 = .ok none) :
    (table.findAddress address).1.files = table.trace.files ∧ table.trace.fault = none := by
  unfold findAddress search Trace.search at h ⊢
  cases hfound : Moment.firstCovering address table.trace.moments with
  | some found => simp [hfound] at h
  | none =>
    cases hfault : table.trace.fault with
    | some e => simp [hfound, hfault] at h
    | none => simp

namespace Chronicle

variable {table : LineTable} {chronicle : Chronicle} {reached : ℕ} {current later : LineTable}

/-- Whether what a chronicle's file table says about its completeness is true. -/
def Truthful (table : LineTable) (chronicle : Chronicle) : Prop :=
  ∀ current, chronicle.session.shared = some current → table.Truthful current.files

/-- Whether the passes of a chronicle that came to the plain end have completed its file table. -/
def Settled (table : LineTable) (chronicle : Chronicle) : Prop :=
  ∀ current, chronicle.session.shared = some current → ∀ id pass,
    chronicle.session.pass? id = some pass → pass.Settled table.program current.files

theorem Keeps.eq_of_complete (h : chronicle.Keeps table reached)
    (htruthful : chronicle.Truthful table) {operation : Operation}
    (hshared : chronicle.session.shared = some current) (hcomplete : current.files.complete = true)
    (hlater : (chronicle.perform operation).session.shared = some later) : later = current := by
  have hbefore := h.shared current hshared
  obtain ⟨more, -, hkept, -⟩ := h.perform operation
  have hprogram := (hkept.shared later hlater).program.trans hbefore.program.symm
  obtain ⟨known, hknown, hyields⟩ := Session.shared_of_perform hlater
  obtain rfl : current = known := Option.some.inj (hshared.symm.trans hknown)
  have hfiles : later.files = current.files := by
    generalize later.files = files at hyields
    cases hyields with
    | same => rfl
    | traced hstands hmet =>
      rw [hbefore.program] at hmet
      exact (htruthful current hshared).eq_of_complete (h.shares hshared hstands) hcomplete _ hmet
    | looked index => rw [LineTable.getFile_of_complete hcomplete]
  obtain ⟨program, files⟩ := later
  obtain ⟨program', files'⟩ := current
  simp only at hprogram hfiles
  rw [hprogram, hfiles]

theorem Keeps.stays (h : chronicle.Keeps table reached) (htruthful : chronicle.Truthful table)
    {operation : Operation} (hshared : chronicle.session.shared = some current)
    (hlater : (chronicle.perform operation).session.shared = some later)
    (hcomplete : current.files.complete = true) : later.files.complete = true := by
  rw [h.eq_of_complete htruthful hshared hcomplete hlater]
  exact hcomplete

theorem Keeps.truthful (h : chronicle.Keeps table reached) (htruthful : chronicle.Truthful table)
    (operation : Operation) : (chronicle.perform operation).Truthful table := by
  intro later hlater
  obtain ⟨current, hshared, hyields⟩ := Session.shared_of_perform hlater
  have hextends := h.shared current hshared
  have hbefore := htruthful current hshared
  generalize later.files = files at hyields
  cases hyields with
  | same => exact hbefore
  | traced hstands hmet =>
    rw [hextends.program] at hmet
    obtain ⟨_, htraced⟩ := (hbefore.traced (h.shares hshared hstands)).trace _ hmet
    exact htraced.complete
  | looked index => exact hbefore.getFile hextends index

theorem Keeps.settled (h : chronicle.Keeps table reached) (htruthful : chronicle.Truthful table)
    (hsettled : chronicle.Settled table)
    (hprogram : table.program.header.programOffset < table.size) (operation : Operation) :
    (chronicle.perform operation).Settled table := by
  intro later hlater id pass hpass
  obtain ⟨current, hshared, -⟩ := Session.shared_of_perform hlater
  obtain ⟨more, -, hkept, -⟩ := h.perform operation
  cases Session.descends_of_perform hlater hpass with
  | kept hold => exact (hsettled current hshared _ _ hold).mono (h.stays htruthful hshared hlater)
  | begun hstart =>
    rw [hstart, (hkept.shared later hlater).program]
    exact Pass.settled_start hprogram _
  | asked hknown hold hfiles hmoved =>
    rw [hfiles, hmoved, (h.shared _ hknown).program]
    exact (hsettled _ hknown _ _ hold).next
  | drained hknown hold hfiles hmoved =>
    rw [hfiles, hmoved, (h.shared _ hknown).program]
    exact (hsettled _ hknown _ _ hold).trace

/-- Where operations begin on a table that was not used, completeness is true and settled. -/
theorem honest_performAll (hfresh : table.files.Fresh) (operations : List Operation) :
    ((start table).performAll operations).Truthful table ∧
      (table.program.header.programOffset < table.size →
        ((start table).performAll operations).Settled table) := by
  induction operations using List.reverseRecOn with
  | nil =>
    constructor
    · intro current hcurrent
      cases hcurrent
      intro hcomplete
      rw [hfresh.complete] at hcomplete
      cases hcomplete
    · intro _ _ _ _ _ hpass
      cases hpass
  | append_singleton operations operation ih =>
    obtain ⟨reached, -, hkept⟩ := (start_keeps table).performAll operations
    rw [performAll, List.foldl_append]
    constructor
    · exact hkept.truthful ih.1 operation
    · intro hprogram
      exact hkept.settled ih.1 (ih.2 hprogram) hprogram operation

theorem eq_of_complete (hfresh : table.files.Fresh) {before after : List Operation}
    (hshared : ((start table).performAll before).session.shared = some current)
    (hcomplete : current.files.complete = true)
    (hlater : ((start table).performAll (before ++ after)).session.shared = some later) :
    later = current := by
  induction after using List.reverseRecOn generalizing later with
  | nil =>
    rw [List.append_nil, hshared] at hlater
    exact (Option.some.inj hlater).symm
  | append_singleton after operation ih =>
    obtain ⟨reached, -, hkept⟩ := (start_keeps table).performAll (before ++ after)
    have htruthful := (honest_performAll hfresh (before ++ after)).1
    rw [← List.append_assoc, performAll, List.foldl_append] at hlater
    obtain ⟨known, hknown, -⟩ := Session.shared_of_perform hlater
    obtain rfl := ih hknown
    exact hkept.eq_of_complete htruthful hknown hcomplete hlater

/-- Whatever tells that a pass came to the plain end leaves a complete file table. -/
theorem Keeps.complete_of_reachesEnd (h : chronicle.Keeps table reached)
    (hsettled : chronicle.Settled table)
    (hprogram : table.program.header.programOffset < table.size) {operation : Operation}
    (hlater : (chronicle.session.perform operation).1.shared = some later)
    (hend : (chronicle.session.perform operation).2.ReachesEnd) : later.files.complete = true := by
  have hbegun {current : LineTable} (hshared : chronicle.session.shared = some current) :
      (Pass.start current.program).Settled current.program current.files := by
    rw [(h.shared current hshared).program]
    exact Pass.settled_start hprogram _
  have hstands {current : LineTable} (hshared : chronicle.session.shared = some current) {id : ℕ}
      {pass : Pass} (hpass : chronicle.session.pass? id = some pass) :
      pass.Settled current.program current.files := by
    rw [(h.shared current hshared).program]
    exact hsettled current hshared id pass hpass
  have hperforms := chronicle.session.performs operation
  generalize (chronicle.session.perform operation).1 = left at hlater hperforms
  generalize (chronicle.session.perform operation).2 = outcome at hend hperforms
  cases hperforms with
  | rows hshared =>
    rw [Session.files_of_setFiles hshared hlater]
    exact (hbegun hshared).complete_of_plain hend.1 hend.2
  | next id hshared hpass =>
    obtain ⟨hanswer, hfresh⟩ := hend
    have hnext := Pass.next_of_answer_none hanswer
    rw [hnext] at hfresh
    rw [Session.files_of_setFiles hshared hlater, hnext]
    exact (hstands hshared hpass).complete_of_finished hfresh (Pass.isFinished_of_next hanswer)
  | drain id hshared hpass =>
    rw [Session.files_of_setFiles hshared hlater]
    exact (hstands hshared hpass).complete_of_plain hend.1 hend.2
  | find address hshared =>
    obtain ⟨hfiles, hfault⟩ := LineTable.findAddress_of_none hend
    rw [Session.files_of_setFiles hshared hlater, hfiles]
    exact (hbegun hshared).complete_of_plain hfault (Pass.trace_of_plain hfault).2
  | _ => exact hend.elim

end Chronicle

namespace LineTable

open Chronicle

/-- A table that says it is complete lists the header's files and every entry that the program
declares, and no operation changes it any more. The program not being empty, an operation that tells
of a pass that came to its plain end leaves a complete table. So does the look-up of a file that is
not known, if the pass that it makes itself comes to the plain end. -/
theorem complete_is_final {order : ByteOrder} {lines : List UInt8} {offset : ℕ}
    {context : UnitContext} {table : LineTable}
    (hparse : parse order lines offset context = .ok table) (before : List Operation) :
    let session := (Session.ofTable table).performAll before
    (∀ current, session.shared = some current → current.files.complete = true →
      current.files.files = table.files.files ++ table.declared ∧
      ∀ after later, (session.performAll after).shared = some later → later = current) ∧
    (table.program.header.programOffset < table.size →
      ∀ operation later, (session.perform operation).1.shared = some later →
        (session.perform operation).2.ReachesEnd → later.files.complete = true) ∧
    ∀ index current, session.handle? = some current → current.files.file? index = none →
      ((Pass.start current.program).trace current.program current.files.recordFullScan).fault =
        none →
      ∃ later, (session.perform (.file index)).1.shared = some later ∧
        later.files.complete = true := by
  obtain ⟨-, hfresh⟩ := fresh_of_parse hparse
  have hsession := session_performAll (start table) before
  obtain ⟨reached, -, hkept⟩ := (start_keeps table).performAll before
  obtain ⟨htruthful, hsettled⟩ := honest_performAll hfresh before
  intro session
  replace hsession : ((start table).performAll before).session = session := hsession
  refine ⟨?_, ?_, ?_⟩
  · intro current hcurrent hcomplete
    rw [← hsession] at hcurrent
    constructor
    · rw [(htruthful current hcurrent hcomplete).files, files_append_declared]
    · intro after later hlater
      apply eq_of_complete hfresh hcurrent hcomplete
      rw [session_performAll, Session.performAll, List.foldl_append]
      exact hlater
  · intro hprogram operation later hlater hend
    rw [← hsession] at hlater hend
    exact hkept.complete_of_reachesEnd (hsettled hprogram) hprogram hlater hend
  · intro index current hhandle hunknown hplain
    refine ⟨{ current with files := (current.getFile index).1.files }, ?_,
      complete_of_scan hunknown hplain⟩
    rw [Session.perform_file hhandle]
    exact Session.shared_setFiles (Session.shared_of_handle? hhandle) _

/-- The rows of a unit with one late file, read through, leave the table complete with that file,
and no operation changes it any more. The look-up of a file that there is not leaves it complete,
too. -/
theorem complete_after_late_file :
    ∃ table current, LineTable.parse .little
        [26, 0, 0, 0, 2, 0, 8, 0, 0, 0, 1, 1, 0, 1, 2, 0, 0, 0,
          0, 6, 3, 97, 0, 0, 0, 0, 1, 0, 1, 1] 0 { compDir := "/", name := "u" } = .ok table ∧
      ((Session.ofTable table).performAll [.rows]).shared = some current ∧
      current.files.files =
        [{ path := "/u", directoryIndex := 0 }, { path := "/a", directoryIndex := 0 }] ∧
      (∀ after later,
        (((Session.ofTable table).performAll [.rows]).performAll after).shared = some later →
        later = current) ∧
      ∃ later, ((Session.ofTable table).perform (.file 9)).1.shared = some later ∧
        later.files.complete = true := by
  have hknown : (LineTable.parse .little
      [26, 0, 0, 0, 2, 0, 8, 0, 0, 0, 1, 1, 0, 1, 2, 0, 0, 0,
        0, 6, 3, 97, 0, 0, 0, 0, 1, 0, 1, 1] 0 { compDir := "/", name := "u" }).map
        (fun table => (decide (table.program.header.programOffset < table.size),
          (table.files.file? 9, ((Pass.start table.program).trace table.program
            table.files.recordFullScan).fault),
          table.trace.fault, table.trace.pass.failed, table.trace.files.files)) =
      .ok (true, (none, none), none, false,
        [{ path := "/u", directoryIndex := 0 }, { path := "/a", directoryIndex := 0 }]) := by
    decide +kernel
  obtain ⟨table, hparse, hknown⟩ := exists_of_map_eq_ok hknown
  simp only [Prod.mk.injEq, decide_eq_true_eq] at hknown
  obtain ⟨hprogram, ⟨hunknown, hplain⟩, hfault, hfresh, hfiles⟩ := hknown
  obtain ⟨-, hends, hlooks⟩ := complete_is_final hparse []
  have hcomplete := hends hprogram .rows { table with files := table.trace.files } rfl
    ⟨hfault, hfresh⟩
  have hfinal := (complete_is_final hparse [.rows]).1 _ rfl hcomplete
  exact ⟨table, _, hparse, rfl, hfiles, hfinal.2, hlooks 9 table rfl hunknown hplain⟩

end LineTable
end DwarfLines
