import Mathlib
import DwarfLines.Proofs.Table.Boundaries
import DwarfLines.Proofs.Table.Finality

/-!
# Sessions as passes that step

A session asks its passes for whole rows, and for a search or a look-up it runs a pass of its own.
Passes that step can do the same. A request is the steps up to the next row, a search is a pass that
is begun and left where the search ends, and a pass that is put in the place of another one leaves
the other where it was. So passes that step come to all that a session comes to, and what holds of
them holds of every session.
-/

namespace DwarfLines

theorem MachineState.atEnd_of_run {parameters : Parameters} {state next : MachineState}
    {c last : Cursor} (h : run parameters state c = (next, .ok (none, last))) :
    last.atEnd = true := by
  fun_induction run parameters state c with
  | case1 state c hend =>
    cases h
    exact hend
  | case2 => cases h
  | case3 => cases h
  | case4 state c hend next' last' hstep hlt ih => exact ih h

/-- What a pass is between its requests, as one that steps: it is about to look for an instruction
at its place, or it ended because it failed. -/
inductive SteppedPass.StandsFor (program : LineProgram) : SteppedPass → Pass → Prop
  | waiting {registers : Registers} {offset : ℕ} {rows : List Row} (hle : offset ≤ program.size) :
    StandsFor program
      { registers, place := program.cursorAt offset, stage := .executing false, rows }
      { registers, offset }
  | failed {stepped : SteppedPass} {pass : Pass} (hended : stepped.stage = .ended)
    (hfailed : pass.failed = true) : StandsFor program stepped pass

namespace Interleaving

open SteppedPass (StandsFor)

variable {table : LineTable} {running : Interleaving} {files : FileTable} {stepped : SteppedPass}
  {others : List SteppedPass}

/-! ### What the first of the passes can do -/

theorem Reachable.step_head (h : Reachable table ⟨files, stepped :: others⟩) :
    Reachable table ⟨(stepped.step table.program files).1,
      (stepped.step table.program files).2 :: others⟩ :=
  h.step 0

theorem Reachable.execute_head (h : Reachable table ⟨files, stepped :: others⟩) {begun : Bool}
    (hstage : stepped.stage = .executing begun) (hend : stepped.place.atEnd = false) :
    let ran := MachineState.step table.program.header.toParameters ⟨stepped.registers, files⟩
      stepped.place
    Reachable table ⟨ran.1.files, stepped.after ran.1.registers ran.2 :: others⟩ := by
  have hmore := h.step_head
  simp only [SteppedPass.step, hstage, SteppedPass.execute_of_place _ hend] at hmore
  exact hmore

theorem Reachable.atLast_head (h : Reachable table ⟨files, stepped :: others⟩) {begun : Bool}
    (hstage : stepped.stage = .executing begun) (hend : stepped.place.atEnd = true) :
    Reachable table ⟨files, stepped.atLast begun :: others⟩ := by
  have hmore := h.step_head
  simp only [SteppedPass.step, hstage, SteppedPass.execute_of_end _ hend] at hmore
  exact hmore

theorem Reachable.run_head (stepped : SteppedPass) (state : MachineState) {c : Cursor}
    {begun : Bool} (hbegun : c.atEnd = true → begun = true)
    (h : Reachable table ⟨state.files, { stepped with
      registers := state.registers, place := c, stage := .executing begun } :: others⟩) :
    let ran := MachineState.run table.program.header.toParameters state c
    ∃ place, Reachable table
      ⟨ran.1.files, { stepped with place }.after ran.1.registers ran.2 :: others⟩ := by
  fun_induction MachineState.run table.program.header.toParameters state c generalizing begun with
  | case1 state c hend =>
    obtain rfl := hbegun hend
    exact ⟨c, h⟩
  | case2 state c hend next e hstep =>
    have hmore := h.execute_head rfl (Bool.eq_false_iff.mpr hend)
    simp only [hstep] at hmore
    exact ⟨c, hmore⟩
  | case3 state c hend next row last hstep =>
    have hmore := h.execute_head rfl (Bool.eq_false_iff.mpr hend)
    simp only [hstep] at hmore
    exact ⟨c, hmore⟩
  | case4 state c hend next last hstep hlt ih =>
    have hmore := h.execute_head rfl (Bool.eq_false_iff.mpr hend)
    simp only [hstep] at hmore
    exact ih (fun _ => rfl) hmore

/-- Beside some others, passes come to a file table and a pass that is between its requests. -/
def Serves (table : LineTable) (others : List SteppedPass) (files : FileTable) (pass : Pass) :
    Prop :=
  ∃ stepped : SteppedPass, Reachable table ⟨files, stepped :: others⟩ ∧
    stepped.StandsFor table.program pass

theorem Serves.begin (haccepted : table.program.Accepted) (h : Reachable table ⟨files, others⟩) :
    Serves table others files (Pass.start table.program) :=
  ⟨_, h.begin, .waiting haccepted.programOffset_le⟩

theorem Reachable.finish_head {state : MachineState} {row : Registers} {offset : ℕ}
    (hle : offset ≤ table.program.size)
    (h : Reachable table ⟨state.files, stepped.after state.registers
      (.ok (some row, table.program.cursorAt offset)) :: others⟩)
    (hfault : stepped.fault = none) :
    let advance := Pass.finishRow state row (table.program.cursorAt offset)
    Serves table others advance.files advance.pass := by
  have hresolving : Reachable table ⟨Pass.filesAfter state.files (table.program.cursorAt offset),
      { stepped with
        registers := state.registers
        place := table.program.cursorAt offset
        stage := .resolving row } :: others⟩ := by
    unfold Pass.filesAfter
    rw [SteppedPass.after] at h
    split_ifs at h ⊢
    · exact h.step_head
    · exact h
  have hmore := hresolving.step_head
  have hfile := (Pass.filesAfter_agrees state.files (table.program.cursorAt offset)).file?
    row.fileIndex
  simp only [SteppedPass.step, SteppedPass.resolve, hfile] at hmore
  cases hfound : state.files.file? row.fileIndex with
  | none =>
    rw [Pass.finishRow_of_none _ hfound]
    rw [hfound] at hmore
    exact ⟨_, hmore, .failed rfl rfl⟩
  | some file =>
    rw [Pass.finishRow_of_some _ hfound]
    rw [hfound] at hmore
    refine ⟨_, hmore, ?_⟩
    rw [hfault]
    exact .waiting hle

theorem Serves.reachable {pass : Pass} (h : Serves table others files pass) :
    ∃ after, Reachable table ⟨files, after :: others⟩ :=
  h.imp fun _ => And.left

theorem Serves.next {pass : Pass} (h : Serves table others files pass) :
    let advance := pass.next table.program files
    Serves table others advance.files advance.pass := by
  obtain ⟨stepped, h, hstands⟩ := h
  cases hstands with
  | failed hended hfailed =>
    rw [Pass.next_of_failed hfailed]
    exact ⟨stepped, h, .failed hended hfailed⟩
  | @waiting registers offset rows hle =>
    have hat : Cursor.at? table.program.bytes (Pass.mk registers offset false).offset =
      .ok (table.program.cursorAt offset) := table.program.at?_of_le hle
    cases hend : (table.program.cursorAt offset).atEnd with
    | true =>
      rw [Pass.next_of_end hat hend]
      exact ⟨_, h, .waiting hle⟩
    | false =>
      rw [Pass.next_of_place rfl hat hend]
      have hbegun : (table.program.cursorAt offset).atEnd = true → false = true := by simp [hend]
      obtain ⟨place, hran⟩ := Reachable.run_head
        ⟨registers, table.program.cursorAt offset, .executing false, rows, none⟩
        ⟨registers, files⟩ hbegun h
      rcases hrun : MachineState.run table.program.header.toParameters ⟨registers, files⟩
        (table.program.cursorAt offset) with ⟨state, e | ⟨row | row, last⟩⟩ <;> rw [hrun] at hran
      · exact ⟨_, hran, .failed rfl rfl⟩
      · exact ⟨_, hran.atLast_head rfl (MachineState.atEnd_of_run hrun), .failed rfl rfl⟩
      · have hforward := (MachineState.run_lt hrun).1
        rw [table.program.eq_cursorAt hforward] at hran ⊢
        exact hran.finish_head (table.program.offset_le_size hforward hle) rfl

/-- The steps that lead through a trace, up to each of its file tables and up to its end. -/
theorem Serves.trace {pass : Pass} (h : Serves table others files pass) :
    let trace := pass.trace table.program files
    (∀ met ∈ trace.tables, ∃ after, Reachable table ⟨met, after :: others⟩) ∧
      Serves table others trace.files trace.pass := by
  fun_induction Pass.trace table.program files pass with
  | case1 files pass advance hanswer =>
    refine ⟨fun met hmet => ?_, h.next⟩
    rw [List.mem_singleton.mp hmet]
    exact h.next.reachable
  | case2 files pass advance e hanswer =>
    refine ⟨fun met hmet => ?_, h.next⟩
    rw [List.mem_singleton.mp hmet]
    exact h.next.reachable
  | case3 files pass advance row hanswer hoffset rest ih =>
    obtain ⟨htables, hend⟩ := ih h.next
    refine ⟨fun met hmet => ?_, hend⟩
    rcases List.mem_cons.mp hmet with rfl | hmore
    · exact h.next.reachable
    · exact htables met hmore

/-- A pass at the end of the program notices that it is there, and it completes the file table. -/
theorem Serves.finish {pass : Pass} (h : Serves table others files pass)
    (hfinished : pass.isFinished table.program = true) (hfailed : pass.failed = false) :
    ∃ after, Reachable table ⟨files.markComplete, after :: others⟩ := by
  obtain ⟨stepped, h, hstands⟩ := h
  cases hstands with
  | failed hended hfails =>
    rw [hfails] at hfailed
    cases hfailed
  | @waiting registers offset rows hle =>
    rw [Pass.isFinished, hfailed, Bool.false_or, decide_eq_true_eq] at hfinished
    have hended := h.atLast_head rfl (table.program.atEnd_cursorAt.mpr hfinished)
    exact ⟨_, hended.finishScan List.mem_cons_self rfl rfl⟩

theorem Reachable.scan (h : Reachable table ⟨files, others⟩)
    (haccepted : table.program.Accepted) :
    ∃ after, Reachable table
      ⟨(LineTable.scan { table with files }).1.files, after :: others⟩ := by
  obtain ⟨-, hserves⟩ := (Serves.begin haccepted h.countScan).trace
  unfold LineTable.scan
  dsimp only at hserves ⊢
  cases hfault : ((Pass.start table.program).trace table.program files.recordFullScan).fault with
  | some e => exact hserves.reachable
  | none =>
    obtain ⟨hfinished, hfailed⟩ := Pass.trace_of_plain hfault
    exact hserves.finish hfinished hfailed

theorem Reachable.getFile (h : Reachable table ⟨files, others⟩)
    (haccepted : table.program.Accepted) (index : UInt64) :
    ∃ passes, others ⊆ passes ∧ Reachable table
      ⟨(LineTable.getFile { table with files } index).1.files, passes⟩ := by
  obtain ⟨after, hscanned⟩ := h.scan haccepted
  unfold LineTable.getFile
  split_ifs
  · exact ⟨others, List.Subset.refl _, h⟩
  · refine ⟨after :: others, List.subset_cons_self _ _, ?_⟩
    rcases hscan : LineTable.scan { table with files } with ⟨scanned, e | ⟨⟩⟩ <;>
      rwa [hscan] at hscanned

/-! ### What sessions can do -/

/-- Passes that step and have come to what a session came to. -/
structure Realizes (table : LineTable) (running : Interleaving) (session : Session) : Prop where
  reachable : Reachable table running
  shared : ∀ current, session.shared = some current →
    current = { table with files := running.files }
  passes : ∀ id pass, session.pass? id = some pass →
    ∃ stepped ∈ running.passes, StandsFor table.program stepped pass

namespace Realizes

variable {session : Session}

theorem extend (h : running.Realizes table session) {next : Interleaving} {later : Session}
    (hnext : Reachable table next) (hmore : running.passes ⊆ next.passes)
    (hshared : ∀ current, later.shared = some current →
      current = { table with files := next.files })
    (hpasses : ∀ id pass, later.pass? id = some pass → session.pass? id = some pass) :
    next.Realizes table later := by
  refine ⟨hnext, hshared, fun id pass hpass => ?_⟩
  obtain ⟨stepped, hmem, hstands⟩ := h.passes id pass (hpasses id pass hpass)
  exact ⟨stepped, hmore hmem, hstands⟩

theorem of_subset (h : running.Realizes table session) {later : Session}
    (hshared : ∀ current, later.shared = some current → session.shared = some current)
    (hpasses : ∀ id pass, later.pass? id = some pass → session.pass? id = some pass) :
    running.Realizes table later :=
  h.extend h.reachable (List.Subset.refl _)
    (fun current hcurrent => h.shared current (hshared current hcurrent)) hpasses

theorem setFiles (h : running.Realizes table session) {next : Interleaving}
    (hnext : Reachable table next) (hmore : running.passes ⊆ next.passes) :
    next.Realizes table (session.setFiles next.files) := by
  refine h.extend hnext hmore (fun current hcurrent => ?_) fun _ _ => id
  obtain ⟨before, hbefore, rfl⟩ := Option.map_eq_some_iff.mp hcurrent
  rw [h.shared before hbefore]

theorem setPass (h : running.Realizes table session) (id : ℕ) {pass : Pass}
    (hstands : ∃ stepped ∈ running.passes, StandsFor table.program stepped pass) :
    running.Realizes table (session.setPass id pass) := by
  refine ⟨h.reachable, h.shared, fun other found hfound => ?_⟩
  rcases Session.pass?_setPass hfound with rfl | hold
  · exact hstands
  · exact h.passes other found hold

theorem release (h : running.Realizes table session) : running.Realizes table session.release := by
  refine h.of_subset (fun _ => session.shared_of_release) fun id pass hpass => ?_
  rwa [Session.pass?_release] at hpass

theorem move (h : running.Realizes table session) (id : ℕ) {files : FileTable} {pass : Pass}
    (hserves : Serves table running.passes files pass) :
    ∃ next : Interleaving, next.Realizes table ((session.setFiles files).setPass id pass) := by
  obtain ⟨stepped, hreached, hstands⟩ := hserves
  have hfiles := h.setFiles hreached (List.subset_cons_self _ _)
  exact ⟨_, hfiles.setPass id ⟨stepped, List.mem_cons_self, hstands⟩⟩

/-- For a pass of a session there is one that can be led on, beside all that there are. -/
theorem serves (h : running.Realizes table session) {id : ℕ} {pass : Pass}
    (hpass : session.pass? id = some pass) :
    Serves table running.passes running.files pass := by
  obtain ⟨stepped, hmem, hstands⟩ := h.passes id pass hpass
  exact ⟨stepped, h.reachable.copy hmem, hstands⟩

/-- Whatever an operation does can be done in steps. -/
theorem perform (h : running.Realizes table session) (haccepted : table.program.Accepted)
    (operation : Operation) :
    ∃ next : Interleaving, next.Realizes table (session.perform operation).1 := by
  have hbegun := Serves.begin haccepted h.reachable
  have hperforms := session.performs operation
  generalize (session.perform operation).1 = later at hperforms ⊢
  generalize (session.perform operation).2 = outcome at hperforms
  cases hperforms with
  | noTable => exact ⟨running, h⟩
  | noPass => exact ⟨running, h⟩
  | rows hshared =>
    obtain rfl := h.shared _ hshared
    obtain ⟨after, hreached⟩ := hbegun.trace.2.reachable
    exact ⟨_, h.setFiles hreached (List.subset_cons_self _ _)⟩
  | start id hshared =>
    obtain rfl := h.shared _ hshared
    obtain ⟨stepped, hreached, hstands⟩ := hbegun
    have hmore := h.extend hreached (List.subset_cons_self _ _) h.shared fun _ _ hold => hold
    exact ⟨_, hmore.setPass id ⟨stepped, List.mem_cons_self, hstands⟩⟩
  | next id hshared hpass =>
    obtain rfl := h.shared _ hshared
    exact h.move id (h.serves hpass).next
  | drain id hshared hpass =>
    obtain rfl := h.shared _ hshared
    exact h.move id (h.serves hpass).trace.2
  | clone id source hpass => exact ⟨running, h.setPass id (h.passes source _ hpass)⟩
  | drop id =>
    have hless : running.Realizes table (session.removePass id) :=
      h.of_subset (fun _ hshared => hshared) fun _ _ => Session.pass?_of_removePass _
    exact ⟨running, hless.release⟩
  | find address hshared =>
    obtain rfl := h.shared _ hshared
    obtain ⟨after, hreached⟩ := hbegun.trace.1 _ (Trace.search_files_mem_tables _ address)
    exact ⟨_, h.setFiles hreached (List.subset_cons_self _ _)⟩
  | file index hshared =>
    obtain rfl := h.shared _ hshared
    obtain ⟨passes, hmore, hreached⟩ := h.reachable.getFile haccepted index
    exact ⟨_, h.setFiles hreached hmore⟩
  | downgrade => exact ⟨running, h.of_subset (fun _ => id) fun _ _ => id⟩
  | dropHandle =>
    have hless : running.Realizes table { session with held := false } :=
      h.of_subset (fun _ => id) fun _ _ => id
    exact ⟨running, hless.release⟩
  | restored => exact ⟨running, h.of_subset (fun _ => id) fun _ _ => id⟩
  | notRestored => exact ⟨running, h⟩

theorem standsAt (h : running.Realizes table session) {id : ℕ} {pass : Pass}
    (hpass : session.pass? id = some pass) (hfailed : pass.failed = false) :
    running.StandsAt pass.offset := by
  obtain ⟨stepped, hmem, hstands⟩ := h.passes id pass hpass
  cases hstands with
  | waiting hle => exact ⟨_, hmem, ⟨false, rfl⟩, rfl⟩
  | failed hended hfails =>
    rw [hfails] at hfailed
    cases hfailed

end Realizes

/-- Whatever is done in a session, passes that step come to the same file table, with a pass for
each one of the session. -/
theorem exists_realizes {order : ByteOrder} {lines : List UInt8} {offset : ℕ}
    {context : UnitContext} (hparse : LineTable.parse order lines offset context = .ok table)
    (operations : List Operation) :
    ∃ running : Interleaving,
      running.Realizes table ((Session.ofTable table).performAll operations) := by
  obtain ⟨haccepted, -⟩ := LineTable.accepted_of_parse hparse
  induction operations using List.reverseRecOn with
  | nil =>
    refine ⟨_, .fresh, fun current hcurrent => ?_, fun id pass hpass => ?_⟩
    · cases hcurrent
      rfl
    · cases hpass
  | append_singleton operations operation ih =>
    obtain ⟨running, h⟩ := ih
    rw [Session.performAll, List.foldl_append]
    exact h.perform haccepted operation

end Interleaving

/-- Whatever is done in a session, its file table is true to the program, and its passes stand where
the bytes say that instructions begin. -/
theorem Session.trueTo_performAll {order : ByteOrder} {lines : List UInt8} {offset : ℕ}
    {context : UnitContext} {table : LineTable}
    (hparse : LineTable.parse order lines offset context = .ok table)
    (operations : List Operation) :
    let session := (ofTable table).performAll operations
    (∀ current, session.shared = some current → current.files.TrueTo table.program) ∧
      ∀ id pass, session.pass? id = some pass → pass.failed = false →
        table.program.Boundary (table.program.cursorAt pass.offset) := by
  obtain ⟨-, hfresh⟩ := LineTable.accepted_of_parse hparse
  obtain ⟨running, h⟩ := Interleaving.exists_realizes hparse operations
  obtain ⟨hfiles, hplaces⟩ := h.reachable.trueTo hfresh
  constructor
  · intro current hcurrent
    rw [h.shared current hcurrent]
    exact hfiles
  · intro id pass hpass hfailed
    obtain ⟨stepped, hmem, -, hoffset⟩ := h.standsAt hpass hfailed
    rw [← hoffset, ← (hplaces stepped hmem).eq_cursorAt]
    exact hplaces stepped hmem

end DwarfLines
