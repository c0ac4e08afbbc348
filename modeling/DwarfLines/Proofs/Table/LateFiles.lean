import Mathlib
import DwarfLines.Proofs.Machine.Refusals
import DwarfLines.Proofs.Table.FileLookup

/-!
# Where late files come from

An operation asks passes for rows, and each request runs the machine from the place of its pass. A
file that the operation adds was therefore declared at a step of one of its requests. The
declaration was accepted, or its end was refused. A refused end fails the request, and where one
pass fails every pass fails, so the file of a refused declaration is the last that is ever added.
-/

namespace DwarfLines

/-- The requests that give a trace begun on a file table, each with the file table it is made
on. -/
def Trace.requests (trace : Trace) (files : FileTable) (pass : Pass) : List (FileTable × Pass) :=
  (files, pass) :: trace.moments.map fun moment => (moment.files, moment.pass)

/-- The states and places in which requests make the steps of the machine. -/
def LineProgram.Makes (program : LineProgram) (requests : List (FileTable × Pass))
    (state : MachineState) (place : Cursor) : Prop :=
  ∃ request ∈ requests, request.2.failed = false ∧
    ∃ c, Cursor.at? program.bytes request.2.offset = .ok c ∧
      MachineState.Visits program.header.toParameters ⟨request.2.registers, request.1⟩ c state
        place

theorem LineProgram.Makes.of_subset {program : LineProgram}
    {requests more : List (FileTable × Pass)} (h : requests ⊆ more) (state : MachineState)
    (place : Cursor) : program.Makes requests state place → program.Makes more state place :=
  fun ⟨request, hrequest, hmade⟩ => ⟨request, h hrequest, hmade⟩

namespace Pass

variable (program : LineProgram)

/-- What a request adds was declared by its steps. -/
theorem next_accounted (files : FileTable) (pass : Pass) :
    Accounted program.header.toParameters (program.Makes [(files, pass)])
      (∀ row, (next program files pass).answer ≠ some (.ok row)) files.files
      (next program files pass).files.files := by
  rcases next_cases program pass with ⟨after, answer, -, -, -, hnext⟩ | ⟨c, hfailed, hat, -, hnext⟩
  · rw [hnext]
    exact .refl _
  · rw [hnext, (pass.conclude_files _).files]
    refine (MachineState.run_accounted _ ⟨pass.registers, files⟩ c).mono ?_ ?_
    · exact fun state place hvisits => ⟨_, List.mem_singleton_self _, hfailed, c, hat, hvisits⟩
    · rintro ⟨e, he⟩ row
      rw [← Prod.mk.eta (p := MachineState.run _ _ c), he]
      simp [conclude]

/-- What a trace has added by the end of a request was declared by the steps of the requests made
so far. -/
theorem trace_accounted (files : FileTable) (pass : Pass) {count : ℕ} {met : FileTable}
    (h : (pass.trace program files).tables[count]? = some met) :
    Accounted program.header.toParameters
      (program.Makes (((pass.trace program files).requests files pass).take (count + 1)))
      (count = (pass.trace program files).moments.length) files.files met.files := by
  have hone (files : FileTable) (pass : Pass) (later : List (FileTable × Pass)) (count : ℕ) :
      [(files, pass)] ⊆ ((files, pass) :: later).take (count + 1) := by simp
  fun_induction Pass.trace program files pass generalizing count with
  | case1 files pass advance =>
    obtain ⟨rfl, rfl⟩ : count = 0 ∧ advance.files = met := by
      simpa [Trace.tables, List.getElem?_singleton] using h
    exact (next_accounted program files pass).mono (.of_subset (hone _ _ _ _)) fun _ => rfl
  | case2 files pass advance e =>
    obtain ⟨rfl, rfl⟩ : count = 0 ∧ advance.files = met := by
      simpa [Trace.tables, List.getElem?_singleton] using h
    exact (next_accounted program files pass).mono (.of_subset (hone _ _ _ _)) fun _ => rfl
  | case3 files pass advance row hanswer hoffset =>
    rename_i rest ih
    have hfirst : Accounted program.header.toParameters (program.Makes [(files, pass)]) False
        files.files advance.files.files :=
      (next_accounted program files pass).mono (fun _ _ => id) fun hended => hended row hanswer
    cases count with
    | zero =>
      obtain rfl : advance.files = met := by simpa [Trace.tables] using h
      exact hfirst.mono (.of_subset (hone _ _ _ _)) False.elim
    | succ count =>
      refine (hfirst.mono (.of_subset (hone _ _ _ _)) id).trans ((ih h).mono (.of_subset ?_) ?_)
      · exact List.subset_cons_self _ _
      · exact congrArg (· + 1)

end Pass

theorem Pass.trace_files_accounted (program : LineProgram) (files : FileTable) (pass : Pass) :
    Accounted program.header.toParameters
      (program.Makes ((pass.trace program files).requests files pass)) True files.files
      (pass.trace program files).files.files := by
  have hlast : (pass.trace program files).tables[(pass.trace program files).moments.length]? =
      some (pass.trace program files).files := by
    simp [Trace.tables]
  refine (trace_accounted program files pass hlast).mono (.of_subset ?_) fun _ => trivial
  exact List.take_subset _ _

namespace Moment

theorem getElem?_of_firstCovering {address : UInt64} {moments seen : List Moment} {last : Moment}
    {row : Row} (h : firstCovering address moments = some (seen, last, row)) :
    ∃ before, seen.length = before + 1 ∧ moments[before]? = some last := by
  induction moments generalizing seen with
  | nil => cases h
  | cons moment rest ih =>
    cases rest with
    | nil => cases h
    | cons next rest =>
      simp only [firstCovering] at h
      split_ifs at h
      · cases h
        exact ⟨1, rfl, rfl⟩
      · cases hmore : firstCovering address (next :: rest) with
        | none => simp [hmore] at h
        | some found =>
          obtain ⟨more, last', row'⟩ := found
          simp only [hmore, Option.some.injEq, Prod.mk.injEq] at h
          obtain ⟨rfl, rfl, rfl⟩ := h
          obtain ⟨before, hlength, hlast⟩ := ih hmore
          exact ⟨before + 1, by simp [hlength], hlast⟩

end Moment

namespace LineTable

/-- The requests that a search makes, up to the row after the one it finds. -/
def searchRequests (table : LineTable) (address : UInt64) : List (FileTable × Pass) :=
  let requests := table.trace.requests table.files (.start table.program)
  match table.search address with
  | (ran, some _) => requests.take ran.moments.length
  | (_, none) => requests

/-- The requests that looking for a file makes. -/
def fileRequests (table : LineTable) (index : UInt64) : List (FileTable × Pass) :=
  if (table.files.file? index).isSome ∨ table.files.complete then
    []
  else
    ((Pass.start table.program).trace table.program table.files.recordFullScan).requests
      table.files.recordFullScan (.start table.program)

theorem findAddress_accounted (table : LineTable) (address : UInt64) :
    Accounted table.program.header.toParameters
      (table.program.Makes (table.searchRequests address))
      ((table.findAddress address).1.files = table.trace.files) table.files.files
      (table.findAddress address).1.files.files := by
  unfold searchRequests findAddress search Trace.search
  cases hfound : Moment.firstCovering address table.trace.moments with
  | none =>
    exact (Pass.trace_files_accounted table.program table.files (.start table.program)).mono
      (fun _ _ => id) fun _ => rfl
  | some found =>
    obtain ⟨seen, last, row⟩ := found
    obtain ⟨before, hlength, hlast⟩ := Moment.getElem?_of_firstCovering hfound
    have hlt := (List.getElem?_eq_some_iff.mp hlast).1
    have hmet : table.trace.tables[before]? = some last.files := by
      rw [Trace.tables, List.getElem?_append_left (by simpa using hlt), List.getElem?_map, hlast]
      rfl
    dsimp only
    rw [hlength]
    exact (Pass.trace_accounted table.program table.files (.start table.program) hmet).mono
      (fun _ _ => id) fun h => absurd h hlt.ne

theorem getFile_accounted (table : LineTable) (index : UInt64) :
    Accounted table.program.header.toParameters
      (table.program.Makes (table.fileRequests index))
      ((table.getFile index).1.files.Agrees
        ((Pass.start table.program).trace table.program table.files.recordFullScan).files)
      table.files.files (table.getFile index).1.files.files := by
  have hscan := Pass.trace_files_accounted table.program table.files.recordFullScan
    (.start table.program)
  unfold fileRequests getFile scan
  split_ifs
  · exact .refl _
  · dsimp only
    generalize (Pass.start table.program).trace table.program table.files.recordFullScan = ran
      at hscan ⊢
    cases ran.fault with
    | none => exact hscan.mono (fun _ _ => id) fun _ => ran.files.markComplete_agrees
    | some e => exact hscan.mono (fun _ _ => id) fun _ => .refl _

variable {table : LineTable} {files : FileTable} {pass : Pass}

/-- Where a shared pass is given no row, the table knows all that it will ever know. -/
theorem Shares.next_files (h : table.Shares files pass)
    (hended : ∀ row, (pass.next table.program files).answer ≠ some (.ok row)) :
    (pass.next table.program files).files.Agrees table.trace.files := by
  obtain ⟨count, reached, hle, hfiles, rfl⟩ := h
  obtain ⟨-, hanswer, hagrees⟩ := next_of_agrees hfiles hle
  rw [hanswer] at hended
  exact hagrees.trans (agrees_of_ended hended (by omega))

theorem Shares.trace_files (h : table.Shares files pass) :
    (pass.trace table.program files).files.Agrees table.trace.files := by
  obtain ⟨count, reached, hle, hfiles, hpass⟩ := h
  have hfollows := trace_follows hfiles hle hpass
  generalize pass.trace table.program files = trace at hfollows ⊢
  have hended (row : Row) : table.answer (count + trace.moments.length) ≠ some (.ok row) := by
    rw [hfollows.fault]
    cases trace.fault <;> simp
  exact hfollows.lastFiles.trans (agrees_of_ended hended (by omega))

end LineTable

/-- The requests that an operation makes on a table, if it finds what it needs. -/
def Session.requests (session : Session) (current : LineTable) :
    Operation → List (FileTable × Pass)
  | .rows => current.trace.requests current.files (.start current.program)
  | .next id => (session.pass? id).toList.map fun pass => (current.files, pass)
  | .drain id => (session.pass? id).toList.flatMap fun pass =>
    (pass.trace current.program current.files).requests current.files pass
  | .find address => current.searchRequests address
  | .file index => current.fileRequests index
  | _ => []

namespace Chronicle

variable {table : LineTable} {chronicle : Chronicle} {reached : ℕ}

/-- What an operation adds was declared by the steps of its requests. -/
theorem Keeps.perform_accounted (h : chronicle.Keeps table reached) (operation : Operation)
    {current later : LineTable} (hcurrent : chronicle.session.shared = some current)
    (hlater : (chronicle.session.perform operation).1.shared = some later) :
    Accounted table.program.header.toParameters
      (table.program.Makes (chronicle.session.requests current operation))
      (later.files.Agrees table.trace.files) current.files.files later.files.files := by
  have hperforms := chronicle.session.performs operation
  generalize (chronicle.session.perform operation).1 = left at hlater hperforms
  generalize (chronicle.session.perform operation).2 = outcome at hperforms
  have hprogram := (h.shared current hcurrent).program
  have hstarts := h.shares hcurrent (.inl rfl)
  have hsame (hleft : left.shared = some later → chronicle.session.shared = some later) :
      Accounted table.program.header.toParameters
        (table.program.Makes (chronicle.session.requests current operation))
        (later.files.Agrees table.trace.files) current.files.files later.files.files := by
    obtain rfl := Option.some.inj (hcurrent.symm.trans (hleft hlater))
    exact .refl _
  obtain ⟨program, files⟩ := current
  obtain rfl : program = table.program := hprogram
  cases hperforms with
  | rows hshared =>
    obtain rfl := Option.some.inj (hcurrent.symm.trans hshared)
    rw [Session.files_of_setFiles hshared hlater]
    exact (Pass.trace_files_accounted _ _ _).mono (fun _ _ => id) fun _ => hstarts.trace_files
  | next number hshared hpass =>
    obtain rfl := Option.some.inj (hcurrent.symm.trans hshared)
    have hstands := h.shares hshared (.inr ⟨number, hpass⟩)
    rw [Session.files_of_setFiles hshared hlater, Session.requests, hpass]
    exact (Pass.next_accounted _ _ _).mono (fun _ _ => id) hstands.next_files
  | drain number hshared hpass =>
    obtain rfl := Option.some.inj (hcurrent.symm.trans hshared)
    have hstands := h.shares hshared (.inr ⟨number, hpass⟩)
    rw [Session.files_of_setFiles hshared hlater, Session.requests, hpass]
    simp only [Option.toList_some, List.flatMap_singleton]
    exact (Pass.trace_files_accounted _ _ _).mono (fun _ _ => id) fun _ => hstands.trace_files
  | find address hshared =>
    obtain rfl := Option.some.inj (hcurrent.symm.trans hshared)
    rw [Session.files_of_setFiles hshared hlater]
    have hdeclared := LineTable.findAddress_accounted ⟨table.program, files⟩ address
    exact hdeclared.mono (fun _ _ => id) fun hran => hran ▸ hstarts.trace_files
  | file index hshared =>
    obtain rfl := Option.some.inj (hcurrent.symm.trans hshared)
    rw [Session.files_of_setFiles hshared hlater]
    have hdeclared := LineTable.getFile_accounted ⟨table.program, files⟩ index
    refine hdeclared.mono (fun _ _ => id) fun hran => hran.trans ?_
    obtain ⟨count, reached, hle, hfiles, hpass⟩ := hstarts
    exact LineTable.Shares.trace_files
      ⟨count, reached, hle, files.recordFullScan_agrees.trans hfiles, hpass⟩
  | drop id => exact hsame (Session.shared_of_release (chronicle.session.removePass id))
  | dropHandle => exact hsame (Session.shared_of_release { chronicle.session with held := false })
  | _ => exact hsame id

/-- Once the shared table knows all that an uninterrupted pass would know, it stays as it is. -/
theorem Keeps.files_final (h : chronicle.Keeps table reached) {current final : LineTable}
    (hcurrent : chronicle.session.shared = some current)
    (hall : current.files.Agrees table.trace.files) (operations : List Operation)
    (hfinal : (chronicle.session.performAll operations).shared = some final) :
    final.files.files = current.files.files := by
  obtain ⟨more, hmore, hlast⟩ := h.performAll operations
  rw [← session_performAll] at hfinal
  have hgrown := (table.alone_covers hmore).files
  have hbound := table.alone_files_isPrefix more
  rw [← (h.shared current hcurrent).files.files] at hgrown
  rw [← (hlast.shared final hfinal).files.files] at hgrown hbound
  rw [← hall.files] at hbound
  exact hbound.eq_of_length_le hgrown.length_le

end Chronicle
end DwarfLines
