import Mathlib
import DwarfLines.Proofs.Table.Chronicle
import DwarfLines.Proofs.Table.CountedPasses

/-!
# Iteration ends

Whatever is done with a table, each pass moves on with each row it is given and does no more work
in its whole life than there are bytes in the program. So do the passes that a search for an
address or for a late file runs by itself. A tally keeps the work of each pass: a pass that is
started has done none, and a copy of a pass has done what the pass had done.
-/

namespace DwarfLines

namespace Outcome

theorem length_rows_advanced (advance : Advance) :
    (advanced advance.pass advance.answer).rows.length = advance.rowCount := by
  rcases advance with ⟨files, pass, _ | e | row⟩ <;> rfl

theorem length_rows_found_le {answer : Except LineError (Option Row)} {most : ℕ}
    (h : ∀ row, answer = .ok (some row) → 0 < most) : (found answer).rows.length ≤ most := by
  rcases answer with e | _ | row
  · exact Nat.zero_le _
  · exact Nat.zero_le _
  · exact h row rfl

end Outcome

namespace Session

variable (session : Session)

def withHandleCounted (action : LineTable → (Session × Outcome) × Work) :
    (Session × Outcome) × Work :=
  match session.handle? with
  | some table => action table
  | none => ((session, .noTable), 0)

def withPassCounted (id : ℕ) (action : LineTable → Pass → (Session × Outcome) × Work) :
    (Session × Outcome) × Work :=
  match session.shared, session.pass? id with
  | some table, some pass => action table pass
  | _, _ => ((session, .noPass), 0)

/-- Does an operation, and counts what that takes. Only what reads rows runs instructions. -/
def performCounted : Operation → (Session × Outcome) × Work
  | .rows => session.withHandleCounted fun table =>
    let (trace, work) := (Pass.start table.program).traceCounted table.program table.files
    ((session.setFiles trace.files, .drained trace), work)
  | .next id => session.withPassCounted id fun table pass =>
    let (advance, work) := pass.nextCounted table.program table.files
    (((session.setFiles advance.files).setPass id advance.pass,
      .advanced advance.pass advance.answer), work)
  | .drain id => session.withPassCounted id fun table pass =>
    let (trace, work) := pass.traceCounted table.program table.files
    (((session.setFiles trace.files).setPass id trace.pass, .drained trace), work)
  | .find address => session.withHandleCounted fun table =>
    let ((searched, answer), work) := table.findAddressCounted address
    ((session.setFiles searched.files, .found answer), work)
  | .file index => session.withHandleCounted fun table =>
    let ((searched, answer), work) := table.getFileCounted index
    ((session.setFiles searched.files, .file answer), work)
  | operation => (session.perform operation, 0)

theorem withHandleCounted_value {action : LineTable → Session × Outcome}
    {counted : LineTable → (Session × Outcome) × Work}
    (h : ∀ table, (counted table).1 = action table) :
    (session.withHandleCounted counted).1 = session.withHandle action := by
  unfold withHandleCounted withHandle
  cases session.handle? with
  | none => rfl
  | some table => exact h table

theorem withPassCounted_value (id : ℕ) {action : LineTable → Pass → Session × Outcome}
    {counted : LineTable → Pass → (Session × Outcome) × Work}
    (h : ∀ table pass, (counted table pass).1 = action table pass) :
    (session.withPassCounted id counted).1 = session.withPass id action := by
  unfold withPassCounted withPass
  cases session.shared with
  | none => rfl
  | some table =>
    cases session.pass? id with
    | none => rfl
    | some pass => exact h table pass

theorem performCounted_value (operation : Operation) :
    (session.performCounted operation).1 = session.perform operation := by
  cases operation with
  | rows =>
    refine session.withHandleCounted_value fun table => ?_
    simp [LineTable.trace, Pass.traceCounted_value]
  | next id =>
    refine session.withPassCounted_value id fun table pass => ?_
    simp [Pass.nextCounted_value]
  | drain id =>
    refine session.withPassCounted_value id fun table pass => ?_
    simp [Pass.traceCounted_value]
  | find address =>
    refine session.withHandleCounted_value fun table => ?_
    simp [LineTable.findAddressCounted_value]
  | file index =>
    refine session.withHandleCounted_value fun table => ?_
    simp [LineTable.getFileCounted_value]
  | _ => rfl

variable {session}

/-- What an operation gives and takes: its rows were counted, and its work is no more than a
number. -/
structure WorkBounded (counted : (Session × Outcome) × Work) (most : ℕ) : Prop where
  rows : counted.1.2.rows.length ≤ counted.2.rows
  work : counted.2.Within most

theorem workBounded_zero {result : Session × Outcome} (h : result.2.rows = []) (most : ℕ) :
    WorkBounded (result, 0) most := by
  constructor
  · rw [h]
    exact Nat.zero_le _
  · exact Work.zero_within most

theorem withHandleCounted_bounded {counted : LineTable → (Session × Outcome) × Work} {most : ℕ}
    (h : ∀ current, session.shared = some current → WorkBounded (counted current) most) :
    WorkBounded (session.withHandleCounted counted) most := by
  unfold withHandleCounted
  cases hhandle : session.handle? with
  | none => exact workBounded_zero rfl most
  | some current => exact h current (shared_of_handle? hhandle)

theorem withPassCounted_bounded {id : ℕ}
    {counted : LineTable → Pass → (Session × Outcome) × Work} {most : ℕ}
    (h : ∀ current pass, session.shared = some current → session.pass? id = some pass →
      WorkBounded (counted current pass) most) :
    WorkBounded (session.withPassCounted id counted) most := by
  unfold withPassCounted
  cases hshared : session.shared with
  | none => exact workBounded_zero rfl most
  | some current =>
    cases hpass : session.pass? id with
    | none => exact workBounded_zero rfl most
    | some pass => exact h current pass hshared hpass

theorem performCounted_next {id : ℕ} {current : LineTable} {pass : Pass}
    (hshared : session.shared = some current) (hpass : session.pass? id = some pass) :
    (session.performCounted (.next id)).2 =
      (pass.nextCounted current.program current.files).2 := by
  simp [performCounted, withPassCounted, hshared, hpass]

theorem performCounted_drain {id : ℕ} {current : LineTable} {pass : Pass}
    (hshared : session.shared = some current) (hpass : session.pass? id = some pass) :
    (session.performCounted (.drain id)).2 =
      (pass.traceCounted current.program current.files).2 := by
  simp [performCounted, withPassCounted, hshared, hpass]

end Session

/-- A session, and the work that the pass with each number has done since it was started. -/
structure Tally where
  session : Session
  done : ℕ → Work

namespace Tally

def start (table : LineTable) : Tally := ⟨Session.ofTable table, fun _ => 0⟩

/-- The work of each pass after an operation that took some work and had an outcome. -/
def record (done : ℕ → Work) (work : Work) : Operation → Outcome → ℕ → Work
  | .start id, .place _ => Function.update done id 0
  | .next id, .advanced _ _ => Function.update done id (done id + work)
  | .drain id, .drained _ => Function.update done id (done id + work)
  | .clone id source, .place _ => Function.update done id (done source)
  | _, _ => done

theorem record_noTable (done : ℕ → Work) (work : Work) (operation : Operation) :
    record done work operation .noTable = done := by
  cases operation <;> rfl

theorem record_noPass (done : ℕ → Work) (work : Work) (operation : Operation) :
    record done work operation .noPass = done := by
  cases operation <;> rfl

def perform (tally : Tally) (operation : Operation) : Tally where
  session := (tally.session.performCounted operation).1.1
  done := record tally.done (tally.session.performCounted operation).2 operation
    (tally.session.performCounted operation).1.2

def performAll (tally : Tally) (operations : List Operation) : Tally :=
  operations.foldl perform tally

theorem session_perform (tally : Tally) (operation : Operation) :
    (tally.perform operation).session = (tally.session.perform operation).1 :=
  congrArg Prod.fst (tally.session.performCounted_value operation)

theorem session_performAll (tally : Tally) (operations : List Operation) :
    (tally.performAll operations).session = tally.session.performAll operations := by
  induction operations generalizing tally with
  | nil => rfl
  | cons operation rest ih =>
    refine (ih (tally.perform operation)).trans ?_
    rw [session_perform]
    rfl

/-- What a tally keeps: the table has the program, and the work of each pass was paid for by the
bytes between the beginning of the program and the place of the pass. -/
structure Keeps (program : LineProgram) (tally : Tally) : Prop where
  shared : ∀ current, tally.session.shared = some current → current.program = program
  paid : ∀ id pass, tally.session.pass? id = some pass →
    Pass.Spends program (.start program) pass (tally.done id)
  done : ∀ id, (tally.done id).Within ((Pass.start program).remaining program)

variable {program : LineProgram} {tally : Tally}

theorem start_keeps (table : LineTable) : (start table).Keeps table.program := by
  refine ⟨?_, ?_, fun _ => Work.zero_within _⟩
  · intro current hcurrent
    cases hcurrent
    rfl
  · intro id pass hpass
    cases hpass

theorem Keeps.setFiles (h : tally.Keeps program) (files : FileTable) :
    Keeps program ⟨tally.session.setFiles files, tally.done⟩ := by
  refine ⟨?_, h.paid, h.done⟩
  intro current hcurrent
  obtain ⟨before, hbefore, rfl⟩ := Option.map_eq_some_iff.mp hcurrent
  exact h.shared before hbefore

theorem Keeps.setPass (h : tally.Keeps program) (id : ℕ) {pass : Pass} {work : Work}
    (hpaid : Pass.Spends program (.start program) pass work) :
    Keeps program ⟨tally.session.setPass id pass, Function.update tally.done id work⟩ := by
  refine ⟨h.shared, ?_, ?_⟩
  · intro other found hfound
    by_cases heq : other = id
    · subst heq
      rw [Session.pass?_setPass_self] at hfound
      cases hfound
      simpa using hpaid
    · rw [Session.pass?_setPass_of_ne _ _ heq] at hfound
      simpa [Function.update_of_ne heq] using h.paid other found hfound
  · intro other
    by_cases heq : other = id
    · subst heq
      simpa using hpaid.within
    · simpa [Function.update_of_ne heq] using h.done other

theorem Keeps.of_subset (h : tally.Keeps program) {session : Session}
    (hshared : ∀ current, session.shared = some current → tally.session.shared = some current)
    (hpasses : ∀ id pass, session.pass? id = some pass →
      tally.session.pass? id = some pass) :
    Keeps program ⟨session, tally.done⟩ := by
  refine ⟨?_, ?_, h.done⟩
  · intro current hcurrent
    exact h.shared current (hshared current hcurrent)
  · intro id pass hpass
    exact h.paid id pass (hpasses id pass hpass)

theorem Keeps.release {session : Session} {done : ℕ → Work} (h : Keeps program ⟨session, done⟩) :
    Keeps program ⟨session.release, done⟩ := by
  refine h.of_subset (fun _ => session.shared_of_release) fun id pass hpass => ?_
  rw [Session.pass?_release] at hpass
  exact hpass

theorem Keeps.start (h : tally.Keeps program) (id : ℕ) {current : LineTable}
    (hshared : tally.session.shared = some current) :
    Keeps program ⟨tally.session.setPass id (.start current.program),
      Function.update tally.done id 0⟩ := by
  rw [h.shared current hshared]
  exact h.setPass id (.refl _ _)

theorem Keeps.move (h : tally.Keeps program) (id : ℕ) {pass after : Pass} {work : Work}
    (hpass : tally.session.pass? id = some pass) (hspends : Pass.Spends program pass after work)
    (files : FileTable) :
    Keeps program ⟨(tally.session.setFiles files).setPass id after,
      Function.update tally.done id (tally.done id + work)⟩ :=
  (h.setFiles files).setPass id ((h.paid id pass hpass).trans hspends)

theorem Keeps.next (h : tally.Keeps program) (id : ℕ) {current : LineTable} {pass : Pass}
    (hshared : tally.session.shared = some current)
    (hpass : tally.session.pass? id = some pass) :
    let advance := pass.next current.program current.files
    Keeps program ⟨(tally.session.setFiles advance.files).setPass id advance.pass,
      Function.update tally.done id
        (tally.done id + (tally.session.performCounted (.next id)).2)⟩ := by
  have hspends := pass.nextCounted_spends current.program current.files
  rw [← Session.performCounted_next hshared hpass, Pass.nextCounted_value] at hspends
  exact h.move id hpass (h.shared current hshared ▸ hspends) _

theorem Keeps.drain (h : tally.Keeps program) (id : ℕ) {current : LineTable} {pass : Pass}
    (hshared : tally.session.shared = some current)
    (hpass : tally.session.pass? id = some pass) :
    let trace := pass.trace current.program current.files
    Keeps program ⟨(tally.session.setFiles trace.files).setPass id trace.pass,
      Function.update tally.done id
        (tally.done id + (tally.session.performCounted (.drain id)).2)⟩ := by
  have hspends := pass.traceCounted_spends current.program current.files
  rw [← Session.performCounted_drain hshared hpass, Pass.traceCounted_value] at hspends
  exact h.move id hpass (h.shared current hshared ▸ hspends) _

theorem Keeps.perform (h : tally.Keeps program) (operation : Operation) :
    (tally.perform operation).Keeps program := by
  have hperforms := tally.session.performs operation
  unfold Tally.perform
  rw [← tally.session.performCounted_value operation] at hperforms
  generalize (tally.session.performCounted operation).1.1 = session at hperforms ⊢
  generalize (tally.session.performCounted operation).1.2 = outcome at hperforms ⊢
  cases hperforms with
  | noTable =>
    rw [record_noTable]
    exact h
  | noPass =>
    rw [record_noPass]
    exact h
  | rows hshared => exact h.setFiles _
  | start id hshared => exact h.start id hshared
  | next id hshared hpass => exact h.next id hshared hpass
  | drain id hshared hpass => exact h.drain id hshared hpass
  | clone id source hpass => exact h.setPass id (h.paid source _ hpass)
  | drop id =>
    exact Keeps.release (h.of_subset (fun _ hshared => hshared)
      fun _ _ => Session.pass?_of_removePass _)
  | find address hshared => exact h.setFiles _
  | file index hshared => exact h.setFiles _
  | downgrade => exact h.of_subset (fun _ => id) fun _ _ => id
  | dropHandle => exact Keeps.release (h.of_subset (fun _ => id) fun _ _ => id)
  | restored => exact h.of_subset (fun _ => id) fun _ _ => id
  | notRestored => exact h

theorem Keeps.performAll (h : tally.Keeps program) (operations : List Operation) :
    (tally.performAll operations).Keeps program := by
  induction operations generalizing tally with
  | nil => exact h
  | cons operation rest ih => exact ih (h.perform operation)

/-- No operation takes more work than a whole pass. -/
theorem Keeps.performCounted_bounded (h : tally.Keeps program) (operation : Operation) :
    Session.WorkBounded (tally.session.performCounted operation)
      ((Pass.start program).remaining program) := by
  cases operation with
  | rows =>
    refine Session.withHandleCounted_bounded fun current hshared => ?_
    obtain rfl := h.shared current hshared
    constructor
    · exact (Pass.traceCounted_rows _ _ _).ge
    · exact (Pass.traceCounted_spends _ _ _).within
  | next id =>
    refine Session.withPassCounted_bounded fun current pass hshared hpass => ?_
    obtain rfl := h.shared current hshared
    constructor
    · exact (Outcome.length_rows_advanced _).trans_le (pass.nextCounted_rows _ _).ge
    · exact (pass.nextCounted_spends _ _).within.mono (h.paid id pass hpass).remaining_le
  | drain id =>
    refine Session.withPassCounted_bounded fun current pass hshared hpass => ?_
    obtain rfl := h.shared current hshared
    constructor
    · exact (Pass.traceCounted_rows _ _ _).ge
    · exact (pass.traceCounted_spends _ _).within.mono (h.paid id pass hpass).remaining_le
  | find address =>
    refine Session.withHandleCounted_bounded fun current hshared => ?_
    obtain rfl := h.shared current hshared
    constructor
    · exact Outcome.length_rows_found_le fun row => current.findAddressCounted_rows
    · exact current.findAddressCounted_within address
  | file index =>
    refine Session.withHandleCounted_bounded fun current hshared => ?_
    obtain rfl := h.shared current hshared
    exact ⟨Nat.zero_le _, current.getFileCounted_within index⟩
  | start | clone | downgrade | restore =>
    refine Session.workBounded_zero ?_ _
    simp only [Session.perform, Session.withHandle, Session.withPass]
    split <;> rfl
  | drop | dropHandle => exact Session.workBounded_zero rfl _

end Tally

namespace Session

theorem advanced_of_next {session : Session} {id : ℕ} {pass next : Pass}
    {answer : Option (Except LineError Row)} (hpass : session.pass? id = some pass)
    (h : (session.perform (.next id)).2 = .advanced next answer) :
    ∃ current, session.shared = some current ∧
      (pass.next current.program current.files).pass = next ∧
      (pass.next current.program current.files).answer = answer := by
  cases hshared : session.shared with
  | none => simp [perform, withPass, hshared] at h
  | some current =>
    simp only [perform, withPass, hshared, hpass] at h
    cases h
    exact ⟨current, rfl, rfl, rfl⟩

/-- Whatever is done with a table, a pass that is given a row moves on and stays in the unit. No
operation executes more instructions than the program has bytes or is given more rows than that,
and neither does any pass from its start on, with what else is done in between. -/
theorem iteration_progresses (table : LineTable) (operations : List Operation) :
    let session := (ofTable table).performAll operations
    let most := table.size - table.program.header.programOffset
    (∀ id pass next row, session.pass? id = some pass →
      (session.perform (.next id)).2 = .advanced next (some (.ok row)) →
      pass.offset < next.offset ∧ next.offset ≤ table.size) ∧
    (∀ operation, (session.performCounted operation).1 = session.perform operation ∧
      WorkBounded (session.performCounted operation) most) ∧
    let tally := (Tally.start table).performAll operations
    tally.session = session ∧ ∀ id, (tally.done id).Within most := by
  have hkept := (Tally.start_keeps table).performAll operations
  have hsession := (Tally.start table).session_performAll operations
  intro session most
  refine ⟨?_, ?_, hsession, hkept.done⟩
  · intro id pass next row hpass hrow
    obtain ⟨current, hshared, rfl, hanswer⟩ := advanced_of_next hpass hrow
    have hprogram : current.program = table.program :=
      hkept.shared current ((congrArg Session.shared hsession).trans hshared)
    have hoffset := Pass.next_offset hanswer
    rw [hprogram] at hoffset ⊢
    exact hoffset
  · intro operation
    refine ⟨session.performCounted_value operation, ?_⟩
    have hbounded := hkept.performCounted_bounded operation
    rw [hsession] at hbounded
    exact hbounded

/-- A row, and then an instruction whose length runs over the largest address there is. A pass is
given the row and fails, and so does a search. -/
theorem iteration_progresses_to_overlong_instruction :
    ∃ table pass next row, LineTable.parse .little
        [31, 0, 0, 0, 2, 0, 13, 0, 0, 0, 1, 1, 0, 1, 2, 0, 0, 97, 0, 0, 0, 0, 0,
          1, 0, 255, 255, 255, 255, 255, 255, 255, 255, 255, 1] 0
        { compDir := "/", name := "u" } = .ok table ∧
      let session := (ofTable table).performAll [.start 0]
      session.pass? 0 = some pass ∧
      (session.perform (.next 0)).2 = .advanced next (some (.ok row)) ∧
      23 = pass.offset ∧ pass.offset < next.offset ∧ next.offset ≤ 35 ∧
      session.performCounted (.find 0) = (session.perform (.find 0), ⟨2, 1⟩) ∧
      WorkBounded (session.performCounted (.find 0)) 12 := by
  have hknown : (LineTable.parse .little
        [31, 0, 0, 0, 2, 0, 13, 0, 0, 0, 1, 1, 0, 1, 2, 0, 0, 97, 0, 0, 0, 0, 0,
          1, 0, 255, 255, 255, 255, 255, 255, 255, 255, 255, 1] 0
        { compDir := "/", name := "u" }).map (fun table =>
      let advance := (Pass.start table.program).next table.program table.files
      decide (table.size = 35 ∧ table.program.header.programOffset = 23 ∧
        advance.answer.map (·.isOk) = some true ∧
        (((ofTable table).performAll [.start 0]).performCounted (.find 0)).2 = ⟨2, 1⟩)) =
      .ok true := by
    decide +kernel
  obtain ⟨table, hparse, hfacts⟩ := exists_of_map_eq_ok hknown
  obtain ⟨hsize, hbegin, hrow, hfind⟩ := of_decide_eq_true hfacts
  obtain ⟨answer, hanswer, hok⟩ := Option.map_eq_some_iff.mp hrow
  obtain ⟨row, rfl⟩ := exists_of_isOk hok
  obtain ⟨hmoves, hcounted, -⟩ := iteration_progresses table [.start 0]
  have hnext : (((ofTable table).performAll [.start 0]).perform (.next 0)).2 =
      .advanced ((Pass.start table.program).next table.program table.files).pass
        (some (.ok row)) := by
    rw [← hanswer]
    rfl
  obtain ⟨hlt, hle⟩ := hmoves 0 (.start table.program) _ row rfl hnext
  obtain ⟨hvalue, hbounded⟩ := hcounted (.find 0)
  rw [hsize] at hle hbounded
  rw [hbegin] at hbounded
  exact ⟨table, _, _, row, hparse, rfl, hnext, hbegin.symm, hlt, hle, Prod.ext hvalue hfind,
    hbounded⟩

end Session
end DwarfLines
