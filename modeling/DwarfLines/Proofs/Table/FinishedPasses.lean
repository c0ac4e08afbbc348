import Mathlib
import DwarfLines.Proofs.Header.Acceptance
import DwarfLines.Proofs.Table.Requests
import DwarfLines.Proofs.Table.WeakHandles

/-!
# Passes that are finished

A pass is finished if it failed or has come to the end of the unit. It does not have to be asked
for a row to know this: a finished pass is given nothing, and any other one is given a row or an
error, because it stands before an instruction. Being given nothing changes neither the pass nor
the table. So once a pass was given something else than a row, it is given nothing any more,
whatever is done with the table and with other passes meanwhile, and so is every copy of it.
-/

namespace DwarfLines

namespace Pass

variable {program : LineProgram} {files : FileTable} {pass : Pass}

/-- A pass stands in the unit, unless it failed. -/
def WithinUnit (program : LineProgram) (pass : Pass) : Prop :=
  pass.failed = false → pass.offset ≤ program.size

theorem start_withinUnit (haccepted : program.Accepted) : (start program).WithinUnit program :=
  fun _ => haccepted.programOffset_le

theorem WithinUnit.next (h : pass.WithinUnit program) (files : FileTable) :
    (next program files pass).pass.WithinUnit program := by
  rcases next_outcome program files pass with hsame | ⟨hfailed, -⟩ | ⟨row, hrow, -⟩
  · rw [hsame]
    exact h
  · intro hnot
    rw [hfailed] at hnot
    cases hnot
  · intro _
    exact (next_offset hrow).2

/-- A pass is finished if and only if it is given nothing. -/
theorem WithinUnit.isFinished_iff (h : pass.WithinUnit program) :
    pass.isFinished program = true ↔ (pass.next program files).answer = none := by
  constructor
  · intro hfinished
    by_cases hfailed : pass.failed = true
    · rw [next_of_failed hfailed]
    · rw [next_of_isFinished (h (by simpa using hfailed)) hfinished]
  · exact isFinished_of_next

end Pass

theorem LineTable.alone_withinUnit {table : LineTable} (haccepted : table.program.Accepted)
    (count : ℕ) : (table.alone count).2.WithinUnit table.program := by
  induction count with
  | zero => exact Pass.start_withinUnit haccepted
  | succ count ih => exact ih.next _

namespace Chronicle

variable {table : LineTable} {chronicle : Chronicle} {reached : ℕ}

theorem Keeps.given_of_ended (h : chronicle.Keeps table reached) {id i j : ℕ}
    {ended later : Option (Except LineError Row)} (hlt : i < j)
    (hended : (chronicle.given id)[i]? = some ended) (hno : ∀ row, ended ≠ some (.ok row))
    (hlater : (chronicle.given id)[j]? = some later) : later = none := by
  have hanswer {k : ℕ} {given : Option (Except LineError Row)}
      (hk : (chronicle.given id)[k]? = some given) : table.answer k = given := by
    obtain ⟨hbound, -⟩ := List.getElem?_eq_some_iff.mp hk
    rw [h.given id, List.getElem?_map, List.getElem?_range hbound] at hk
    exact Option.some.inj hk
  have hstopped : ∀ row, table.answer i ≠ some (.ok row) := by
    rw [hanswer hended]
    exact hno
  rw [← hanswer hlater]
  exact (LineTable.alone_of_ended hstopped hlt).2

/-- Whatever was done in a session, a pass is finished if and only if it is given nothing next,
being given nothing changes neither the pass nor the table, and each pass was given nothing more
after it was first given something else than a row. -/
theorem finished_passes_give_nothing {order : ByteOrder} {lines : List UInt8} {offset : ℕ}
    {context : UnitContext} {table : LineTable}
    (hparse : LineTable.parse order lines offset context = .ok table)
    (operations : List Operation) :
    let chronicle := (start table).performAll operations
    (∀ id pass, chronicle.session.pass? id = some pass →
      ∃ current, chronicle.session.shared = some current ∧
        let advance := pass.next current.program current.files
        (chronicle.session.perform (.next id)).2 = .advanced advance.pass advance.answer ∧
        (pass.isFinished current.program = true ↔ advance.answer = none) ∧
        (advance.answer = none → advance.pass = pass ∧ advance.files = current.files)) ∧
    ∀ (id i j : ℕ) (ended later : Option (Except LineError Row)), i < j →
      (chronicle.given id)[i]? = some ended → (∀ row, ended ≠ some (.ok row)) →
      (chronicle.given id)[j]? = some later → later = none := by
  obtain ⟨haccepted, -⟩ := LineTable.accepted_of_parse hparse
  obtain ⟨reached, -, hkept⟩ := (start_keeps table).performAll operations
  intro chronicle
  constructor
  · intro id pass hpass
    have hbegin : (Session.ofTable table).Accounted := Session.accounted_of_isHeld rfl (.inl rfl)
    have haccounted : chronicle.session.Accounted := by
      rw [session_performAll]
      exact hbegin.performAll operations
    obtain ⟨current, hcurrent⟩ :=
      Option.isSome_iff_exists.mp (haccounted.mpr (.inr ⟨id, pass, hpass⟩))
    have hwithin : pass.WithinUnit current.program := by
      rw [(hkept.shared current hcurrent).program, (hkept.place id pass hpass).2]
      exact LineTable.alone_withinUnit haccepted _
    refine ⟨current, hcurrent, ?_, hwithin.isFinished_iff, ?_⟩
    · simp only [Session.perform, Session.withPass, hcurrent, hpass]
    · intro hnone
      rw [Pass.next_of_answer_none hnone]
      exact ⟨rfl, rfl⟩
  · intro id i j ended later hlt hended hno hlater
    exact hkept.given_of_ended hlt hended hno hlater

/-- A row without a file at the last byte of the program, asked for by a pass and, after it failed,
by a copy of the pass. -/
theorem finished_passes_after_bad_file_index :
    ∃ table pass current, LineTable.parse .little
        [15, 0, 0, 0, 2, 0, 8, 0, 0, 0, 1, 1, 0, 1, 2, 0, 0, 0, 1] 0
        { compDir := "/", name := "u" } = .ok table ∧
      let chronicle := (start table).performAll [.start 0, .next 0, .clone 1 0, .find 0, .next 1]
      chronicle.given 1 = [some (.error (.format (.badFileIndex 1))), none] ∧
      chronicle.session.pass? 1 = some pass ∧ chronicle.session.shared = some current ∧
      pass.isFinished current.program = true ∧
      (pass.next current.program current.files).answer = none := by
  have hknown : (LineTable.parse .little
        [15, 0, 0, 0, 2, 0, 8, 0, 0, 0, 1, 1, 0, 1, 2, 0, 0, 0, 1] 0
        { compDir := "/", name := "u" }).map (fun table =>
      let chronicle := (start table).performAll [.start 0, .next 0, .clone 1 0, .find 0, .next 1]
      decide ((chronicle.given 1)[0]? = some (some (.error (.format (.badFileIndex 1)))) ∧
        (chronicle.given 1).length = 2 ∧
        (chronicle.session.pass? 1).map (·.failed) = some true)) = .ok true := by
    decide +kernel
  obtain ⟨table, hparse, hfacts⟩ := exists_of_map_eq_ok hknown
  obtain ⟨hfirst, hlength, hfailed⟩ := of_decide_eq_true hfacts
  obtain ⟨pass, hpass, hfailed⟩ := Option.map_eq_some_iff.mp hfailed
  obtain ⟨hfinished, hfused⟩ := finished_passes_give_nothing hparse
    [.start 0, .next 0, .clone 1 0, .find 0, .next 1]
  obtain ⟨current, hcurrent, -, hiff, -⟩ := hfinished 1 pass hpass
  have hdone : pass.isFinished current.program = true := by simp [Pass.isFinished, hfailed]
  refine ⟨table, pass, current, hparse, ?_, hpass, hcurrent, hdone, hiff.mp hdone⟩
  obtain ⟨first, second, hgiven⟩ := List.length_eq_two.mp hlength
  have hlater := hfused 1 0 1 first second (by decide) (by rw [hgiven]; rfl)
  rw [hgiven] at hfirst hlater ⊢
  cases hfirst
  rw [hlater (by simp) rfl]

end Chronicle
end DwarfLines
