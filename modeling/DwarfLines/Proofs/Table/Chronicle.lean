import Mathlib
import DwarfLines.Proofs.Table.Operations
import DwarfLines.Proofs.Table.SharedTable

/-!
# What the passes of a session were given

A chronicle is a session together with what each numbered pass was given so far, counting for a
copy what its original was given before it was copied. At every moment there is a number of
requests that no pass has exceeded such that the table is what a lone pass makes of it in that
many requests, and every pass stands where the lone pass stood after as many answers as the pass
was given. One operation keeps this and never lowers the number; a run of operations keeps it by
induction.
-/

namespace DwarfLines


def Outcome.rows : Outcome → List Row
  | advanced _ (some (.ok row)) => [row]
  | drained trace => trace.rows
  | found (.ok (some row)) => [row]
  | _ => []

theorem Outcome.answer_of_mem_rows {pass : Pass} {answer : Option (Except LineError Row)}
    {row : Row} (h : row ∈ (advanced pass answer).rows) : answer = some (.ok row) := by
  rcases answer with _ | e | given
  · cases h
  · cases h
  · rw [List.mem_singleton.mp h]

theorem Outcome.found_of_mem_rows {answer : Except LineError (Option Row)} {row : Row}
    (h : row ∈ (found answer).rows) : answer = .ok (some row) := by
  rcases answer with e | _ | given
  · cases h
  · cases h
  · rw [List.mem_singleton.mp h]

/-- A session, and what each numbered pass was given so far. -/
structure Chronicle where
  session : Session
  given : ℕ → List (Option (Except LineError Row))

namespace Chronicle

def start (table : LineTable) : Chronicle where
  session := .ofTable table
  given _ := []

/-- What each pass was given, after an operation with an outcome. -/
def record (given : ℕ → List (Option (Except LineError Row))) :
    Operation → Outcome → ℕ → List (Option (Except LineError Row))
  | .start id, .place _ => Function.update given id []
  | .next id, .advanced _ answer => Function.update given id (given id ++ [answer])
  | .drain id, .drained trace => Function.update given id (given id ++ trace.answers)
  | .clone id source, .place _ => Function.update given id (given source)
  | _, _ => given

theorem record_noTable (given : ℕ → List (Option (Except LineError Row))) (operation : Operation) :
    record given operation .noTable = given := by
  cases operation <;> rfl

theorem record_noPass (given : ℕ → List (Option (Except LineError Row))) (operation : Operation) :
    record given operation .noPass = given := by
  cases operation <;> rfl

def perform (chronicle : Chronicle) (operation : Operation) : Chronicle where
  session := (chronicle.session.perform operation).1
  given := record chronicle.given operation (chronicle.session.perform operation).2

def performAll (chronicle : Chronicle) (operations : List Operation) : Chronicle :=
  operations.foldl perform chronicle

theorem session_performAll (chronicle : Chronicle) (operations : List Operation) :
    (chronicle.performAll operations).session = chronicle.session.performAll operations := by
  induction operations generalizing chronicle with
  | nil => rfl
  | cons operation rest ih => exact ih (chronicle.perform operation)

/-- What a chronicle keeps: no pass was given more answers than a number of requests that made the
table what it is, and each stands where a lone pass stood when it was given as much. -/
structure Keeps (table : LineTable) (chronicle : Chronicle) (reached : ℕ) : Prop where
  shared : ∀ current, chronicle.session.shared = some current → current.Extends table reached
  place : ∀ id pass, chronicle.session.pass? id = some pass →
    (chronicle.given id).length ≤ reached ∧ pass = (table.alone (chronicle.given id).length).2
  given : ∀ id, chronicle.given id = (List.range (chronicle.given id).length).map table.answer

variable {table : LineTable} {chronicle : Chronicle} {reached more : ℕ}

theorem start_keeps (table : LineTable) : (start table).Keeps table 0 := by
  refine ⟨?_, ?_, fun _ => rfl⟩
  · intro current hcurrent
    cases hcurrent
    exact .refl _
  · intro id pass hpass
    cases hpass

theorem Keeps.setFiles (h : chronicle.Keeps table reached) {current : LineTable}
    {files : FileTable} (hshared : chronicle.session.shared = some current)
    (hmore : reached ≤ more) (hfiles : files.Agrees (table.alone more).1) :
    Keeps table ⟨chronicle.session.setFiles files, chronicle.given⟩ more := by
  refine ⟨?_, ?_, h.given⟩
  · intro later hlater
    rw [Session.shared_setFiles hshared] at hlater
    cases hlater
    exact ⟨(h.shared current hshared).program, hfiles⟩
  · intro id pass hpass
    obtain ⟨hle, hplace⟩ := h.place id pass hpass
    exact ⟨hle.trans hmore, hplace⟩

theorem Keeps.setPass (h : chronicle.Keeps table reached) (id : ℕ) {pass : Pass} {count : ℕ}
    (hle : count ≤ reached) (hpass : pass = (table.alone count).2) :
    Keeps table ⟨chronicle.session.setPass id pass,
      Function.update chronicle.given id ((List.range count).map table.answer)⟩ reached := by
  refine ⟨h.shared, ?_, ?_⟩
  · intro other found hfound
    by_cases heq : other = id
    · subst heq
      rw [Session.pass?_setPass_self] at hfound
      cases hfound
      simpa using ⟨hle, hpass⟩
    · rw [Session.pass?_setPass_of_ne _ _ heq] at hfound
      simpa [Function.update_of_ne heq] using h.place other found hfound
  · intro other
    by_cases heq : other = id
    · subst heq
      simp
    · simpa [Function.update_of_ne heq] using h.given other

theorem Keeps.move (h : chronicle.Keeps table reached) {current : LineTable} {files : FileTable}
    (hshared : chronicle.session.shared = some current) (id : ℕ) {pass : Pass}
    {answers : List (Option (Except LineError Row))}
    (hanswers : answers =
      (List.range answers.length).map fun i => table.answer ((chronicle.given id).length + i))
    (hfiles : files.Agrees
      (table.alone (max reached ((chronicle.given id).length + answers.length))).1)
    (hpass : pass = (table.alone ((chronicle.given id).length + answers.length)).2) :
    Keeps table ⟨(chronicle.session.setFiles files).setPass id pass,
      Function.update chronicle.given id (chronicle.given id ++ answers)⟩
      (max reached ((chronicle.given id).length + answers.length)) := by
  have hput := (h.setFiles hshared (le_max_left _ _) hfiles).setPass id (le_max_right _ _) hpass
  rw [List.range_add, List.map_append, ← h.given id, List.map_map] at hput
  rw [hanswers]
  simpa [Function.comp_def] using hput

/-- What an operation comes to: a chronicle is kept, perhaps with more requests, and the rows of
the outcome are answers to some of them. -/
def Reaches (table : LineTable) (reached : ℕ) (after : Chronicle) (outcome : Outcome) : Prop :=
  ∃ more, reached ≤ more ∧ after.Keeps table more ∧
    ∀ row ∈ outcome.rows, ∃ count < more, table.answer count = some (.ok row)

theorem Keeps.reaches (h : chronicle.Keeps table reached) {outcome : Outcome}
    (hrows : outcome.rows = []) : Reaches table reached chronicle outcome :=
  ⟨reached, le_rfl, h, by simp [hrows]⟩

theorem Keeps.rows (h : chronicle.Keeps table reached) {current : LineTable}
    (hshared : chronicle.session.shared = some current) :
    Reaches table reached ⟨chronicle.session.setFiles current.trace.files, chronicle.given⟩
      (.drained current.trace) := by
  have hfollows := (h.shared current hshared).trace_follows
  refine ⟨max reached (0 + current.trace.moments.length + 1), le_max_left _ _,
    h.setFiles hshared (le_max_left _ _) hfollows.lastFiles, fun row hrow => ?_⟩
  obtain ⟨i, hi, hanswer⟩ := hfollows.answer_of_mem_rows hrow
  exact ⟨0 + i, by omega, hanswer⟩

theorem Keeps.start (h : chronicle.Keeps table reached) (id : ℕ) {current : LineTable}
    (hshared : chronicle.session.shared = some current) :
    Keeps table ⟨chronicle.session.setPass id (.start current.program),
      Function.update chronicle.given id []⟩ reached := by
  have hput := h.setPass id (Nat.zero_le reached) rfl
  rw [LineTable.alone, ← (h.shared current hshared).program] at hput
  exact hput

theorem Keeps.next (h : chronicle.Keeps table reached) (id : ℕ) {current : LineTable} {pass : Pass}
    (hshared : chronicle.session.shared = some current)
    (hpass : chronicle.session.pass? id = some pass) :
    let advance := pass.next current.program current.files
    Reaches table reached
      ⟨(chronicle.session.setFiles advance.files).setPass id advance.pass,
        Function.update chronicle.given id (chronicle.given id ++ [advance.answer])⟩
      (.advanced advance.pass advance.answer) := by
  have hextends := h.shared current hshared
  obtain ⟨hle, hplace⟩ := h.place id pass hpass
  obtain ⟨hnext, hanswer, hfiles⟩ := LineTable.next_of_agrees hextends.files hle
  rw [← hplace, ← hextends.program] at hnext hanswer hfiles
  have hanswers : [(pass.next current.program current.files).answer] =
      (List.range 1).map fun i => table.answer ((chronicle.given id).length + i) := by
    simp [hanswer]
  refine ⟨_, le_max_left reached ((chronicle.given id).length + 1),
    h.move hshared id hanswers hfiles hnext, fun row hrow => ?_⟩
  exact ⟨(chronicle.given id).length, by omega,
    hanswer.symm.trans (Outcome.answer_of_mem_rows hrow)⟩

theorem Keeps.drain (h : chronicle.Keeps table reached) (id : ℕ) {current : LineTable} {pass : Pass}
    (hshared : chronicle.session.shared = some current)
    (hpass : chronicle.session.pass? id = some pass) :
    let trace := pass.trace current.program current.files
    Reaches table reached
      ⟨(chronicle.session.setFiles trace.files).setPass id trace.pass,
        Function.update chronicle.given id (chronicle.given id ++ trace.answers)⟩
      (.drained trace) := by
  have hextends := h.shared current hshared
  obtain ⟨hle, hplace⟩ := h.place id pass hpass
  have hfollows := LineTable.trace_follows hextends.files hle hplace
  rw [← hextends.program] at hfollows
  have hanswers := hfollows.answers
  rw [← Trace.length_answers] at hanswers
  refine ⟨_, le_max_left reached ((chronicle.given id).length +
    (pass.trace current.program current.files).answers.length),
    h.move hshared id hanswers ?_ ?_, fun row hrow => ?_⟩
  · rw [Trace.length_answers]
    exact hfollows.lastFiles
  · rw [Trace.length_answers]
    exact hfollows.lastPass
  · obtain ⟨i, hi, hanswer⟩ := hfollows.answer_of_mem_rows hrow
    rw [Trace.length_answers]
    exact ⟨_, by omega, hanswer⟩

theorem Keeps.clone (h : chronicle.Keeps table reached) (id : ℕ) {source : ℕ} {pass : Pass}
    (hpass : chronicle.session.pass? source = some pass) :
    Keeps table ⟨chronicle.session.setPass id pass,
      Function.update chronicle.given id (chronicle.given source)⟩ reached := by
  obtain ⟨hle, hplace⟩ := h.place source pass hpass
  have hput := h.setPass id hle hplace
  rw [← h.given source] at hput
  exact hput

theorem Keeps.find (h : chronicle.Keeps table reached) (address : UInt64) {current : LineTable}
    (hshared : chronicle.session.shared = some current) :
    Reaches table reached
      ⟨chronicle.session.setFiles (current.findAddress address).1.files, chronicle.given⟩
      (.found (current.findAddress address).2) := by
  obtain ⟨more, hmore, hextends, hrow⟩ := (h.shared current hshared).findAddress address
  refine ⟨more, hmore, h.setFiles hshared hmore hextends.files, fun row hmem => ?_⟩
  exact hrow row (Outcome.found_of_mem_rows hmem)

theorem Keeps.file (h : chronicle.Keeps table reached) (index : UInt64) {current : LineTable}
    (hshared : chronicle.session.shared = some current) :
    Reaches table reached
      ⟨chronicle.session.setFiles (current.getFile index).1.files, chronicle.given⟩
      (.file (current.getFile index).2) := by
  obtain ⟨more, hmore, hextends⟩ := (h.shared current hshared).getFile index
  exact ⟨more, hmore, h.setFiles hshared hmore hextends.files, by simp [Outcome.rows]⟩

theorem Keeps.of_subset (h : chronicle.Keeps table reached) {session : Session}
    (hshared : ∀ current, session.shared = some current →
      chronicle.session.shared = some current)
    (hpasses : ∀ id pass, session.pass? id = some pass →
      chronicle.session.pass? id = some pass) :
    Keeps table ⟨session, chronicle.given⟩ reached := by
  refine ⟨?_, ?_, h.given⟩
  · intro current hcurrent
    exact h.shared current (hshared current hcurrent)
  · intro id pass hpass
    exact h.place id pass (hpasses id pass hpass)

theorem Keeps.release {session : Session} {given : ℕ → List (Option (Except LineError Row))}
    (h : Keeps table ⟨session, given⟩ reached) : Keeps table ⟨session.release, given⟩ reached := by
  refine h.of_subset (fun _ => session.shared_of_release) fun id pass hpass => ?_
  rw [Session.pass?_release] at hpass
  exact hpass

theorem Keeps.drop (h : chronicle.Keeps table reached) (id : ℕ) :
    Keeps table ⟨(chronicle.session.removePass id).release, chronicle.given⟩ reached :=
  Keeps.release (h.of_subset (fun _ hshared => hshared) fun _ _ => Session.pass?_of_removePass _)

/-- Every operation keeps what a chronicle keeps. -/
theorem Keeps.perform (h : chronicle.Keeps table reached) (operation : Operation) :
    Reaches table reached (chronicle.perform operation)
      (chronicle.session.perform operation).2 := by
  have hperforms := chronicle.session.performs operation
  unfold Chronicle.perform
  generalize (chronicle.session.perform operation).1 = session at hperforms ⊢
  generalize (chronicle.session.perform operation).2 = outcome at hperforms ⊢
  cases hperforms with
  | noTable =>
    rw [record_noTable]
    exact h.reaches rfl
  | noPass =>
    rw [record_noPass]
    exact h.reaches rfl
  | rows hshared => exact h.rows hshared
  | start id hshared => exact (h.start id hshared).reaches rfl
  | next id hshared hpass => exact h.next id hshared hpass
  | drain id hshared hpass => exact h.drain id hshared hpass
  | clone id source hpass => exact (h.clone id hpass).reaches rfl
  | drop id => exact (h.drop id).reaches rfl
  | find address hshared => exact h.find address hshared
  | file index hshared => exact h.file index hshared
  | downgrade =>
    refine Keeps.reaches ?_ rfl
    exact h.of_subset (fun _ => id) fun _ _ => id
  | dropHandle =>
    refine Keeps.reaches ?_ rfl
    exact Keeps.release (h.of_subset (fun _ => id) fun _ _ => id)
  | restored =>
    refine Keeps.reaches ?_ rfl
    exact h.of_subset (fun _ => id) fun _ _ => id
  | notRestored => exact h.reaches rfl

theorem Keeps.performAll (h : chronicle.Keeps table reached) (operations : List Operation) :
    ∃ more, reached ≤ more ∧ (chronicle.performAll operations).Keeps table more := by
  induction operations generalizing chronicle reached with
  | nil => exact ⟨reached, le_rfl, h⟩
  | cons operation rest ih =>
    obtain ⟨next, hnext, hkept, -⟩ := h.perform operation
    obtain ⟨more, hmore, hall⟩ := ih hkept
    exact ⟨more, hnext.trans hmore, hall⟩

end Chronicle

namespace Session

variable {table : LineTable} {operations : List Operation}

theorem exists_extends {current : LineTable}
    (h : ((ofTable table).performAll operations).shared = some current) :
    ∃ reached, current.Extends table reached := by
  obtain ⟨reached, -, hkept⟩ := (Chronicle.start_keeps table).performAll operations
  have hsession := Chronicle.session_performAll (Chronicle.start table) operations
  replace h : ((Chronicle.start table).performAll operations).session.shared = some current :=
    (congrArg Session.shared hsession).trans h
  exact ⟨reached, hkept.shared current h⟩

theorem program_eq {current : LineTable}
    (h : ((ofTable table).performAll operations).shared = some current) :
    current.program = table.program := by
  obtain ⟨reached, hextends⟩ := exists_extends h
  exact hextends.program

/-- Each pass of a session stands where a lone pass stands after as many requests. -/
theorem exists_place {id : ℕ} {pass : Pass}
    (h : ((ofTable table).performAll operations).pass? id = some pass) :
    ∃ count, pass = (table.alone count).2 := by
  obtain ⟨reached, -, hkept⟩ := (Chronicle.start_keeps table).performAll operations
  have hsession := Chronicle.session_performAll (Chronicle.start table) operations
  replace h : ((Chronicle.start table).performAll operations).session.pass? id = some pass :=
    (congrArg (Session.pass? · id) hsession).trans h
  exact ⟨_, (hkept.place id pass h).2⟩

end Session
end DwarfLines
