import Mathlib
import DwarfLines.Proofs.Bytes.Gives
import DwarfLines.Proofs.Table.Chronicle

/-!
# Passes do not interfere

Whatever is done with a table and its passes, each pass is given the answers of one uninterrupted
pass in their order, and a search for an address finds what it would have found at the start. The
files known meanwhile are those of the start and then some of the declarations that an
uninterrupted pass meets, in its order; none of them is ever taken back, so the file of a row stays
where the row says.
-/

namespace DwarfLines
namespace LineTable

variable (table : LineTable)

/-- The entries that an uninterrupted pass adds to the file table. -/
def declared : List FileEntry := table.trace.files.files.drop table.files.files.length

/-- The number of entries that the lone pass has added after a number of requests. -/
def declaredBy (reached : ℕ) : ℕ :=
  (table.alone reached).1.files.length - table.files.files.length

variable {table}

theorem trace_follows_alone (table : LineTable) : table.Follows 0 0 table.trace :=
  (Extends.refl table).trace_follows

theorem trace_ended (table : LineTable) (row : Row) :
    table.answer (0 + table.trace.moments.length) ≠ some (.ok row) := by
  rw [table.trace_follows_alone.fault]
  cases table.trace.fault <;> simp

theorem answer_of_trace_le {count : ℕ} (h : table.trace.answers.length ≤ count) :
    table.answer count = none := by
  rw [Trace.length_answers] at h
  exact (alone_of_ended table.trace_ended (by omega)).2

/-- What the lone pass is given is what its trace tells, and then nothing. -/
theorem map_answer_range (table : LineTable) (count : ℕ) :
    (List.range (table.trace.answers.length + count)).map table.answer =
      table.trace.answers ++ List.replicate count none := by
  have hanswers := table.trace_follows_alone.answers
  rw [← Trace.length_answers] at hanswers
  simp only [Nat.zero_add] at hanswers
  rw [List.range_add, List.map_append, List.map_map, ← hanswers]
  congr 1
  refine List.eq_replicate_iff.mpr ⟨by simp, fun answer hanswer => ?_⟩
  obtain ⟨i, -, rfl⟩ := List.mem_map.mp hanswer
  exact answer_of_trace_le (Nat.le_add_right _ i)

theorem alone_files_isPrefix (table : LineTable) (reached : ℕ) :
    (table.alone reached).1.files <+: table.trace.files.files := by
  have hlast := table.trace_follows_alone.lastFiles
  rw [hlast.files, Nat.zero_max]
  rcases Nat.le_total reached (0 + table.trace.moments.length + 1) with hle | hle
  · exact (table.alone_covers hle).files
  · rw [(alone_of_ended table.trace_ended hle).1]

theorem files_append_declared (table : LineTable) :
    table.trace.files.files = table.files.files ++ table.declared := by
  obtain ⟨more, hmore⟩ := alone_files_isPrefix table 0
  simp only [alone] at hmore
  rw [declared, ← hmore, List.drop_left]

theorem files_eq_of_isPrefix {files : FileTable} (hcovers : files.Covers table.files)
    (hbegins : files.files <+: table.trace.files.files) :
    files.files = table.files.files ++
      table.declared.take (files.files.length - table.files.files.length) := by
  rw [List.prefix_iff_eq_take, files_append_declared, List.take_append,
    List.take_of_length_le hcovers.files.length_le] at hbegins
  exact hbegins

theorem length_sub_le_of_isPrefix {files : FileTable}
    (hbegins : files.files <+: table.trace.files.files) :
    files.files.length - table.files.files.length ≤ table.declared.length := by
  have hlength := hbegins.length_le
  rw [files_append_declared, List.length_append] at hlength
  omega

theorem alone_files (table : LineTable) (reached : ℕ) :
    (table.alone reached).1.files =
      table.files.files ++ table.declared.take (table.declaredBy reached) :=
  files_eq_of_isPrefix (table.alone_covers (Nat.zero_le reached))
    (alone_files_isPrefix table reached)

theorem declared_of_five (h : 5 ≤ table.program.header.version) : table.declared = [] := by
  have halone (count : ℕ) : (table.alone count).1.Agrees table.files := by
    induction count with
    | zero => exact .refl _
    | succ count ih => exact (Pass.next_files_of_five _ h _ _).trans ih
  have hlast := table.trace_follows_alone.lastFiles.trans (halone _)
  rw [declared, hlast.files, List.drop_length]

theorem declaredBy_mono {reached more : ℕ} (h : reached ≤ more) :
    table.declaredBy reached ≤ table.declaredBy more :=
  Nat.sub_le_sub_right (table.alone_covers h).files.length_le _

theorem declaredBy_le (reached : ℕ) : table.declaredBy reached ≤ table.declared.length :=
  length_sub_le_of_isPrefix (alone_files_isPrefix table reached)

end LineTable

namespace Chronicle

variable {table : LineTable} {chronicle : Chronicle} {reached : ℕ}

theorem Keeps.given_isPrefix (h : chronicle.Keeps table reached) (id : ℕ) :
    ∃ ended, chronicle.given id <+: table.trace.answers ++ List.replicate ended none := by
  refine ⟨(chronicle.given id).length, ?_⟩
  rw [← LineTable.map_answer_range, h.given id, List.length_map, List.length_range, Nat.add_comm,
    List.range_add, List.map_append]
  exact List.prefix_append _ _

theorem Keeps.files_eq (h : chronicle.Keeps table reached) {current : LineTable}
    (hshared : chronicle.session.shared = some current) :
    current.files.files = table.files.files ++ table.declared.take (table.declaredBy reached) :=
  (h.shared current hshared).files.files.trans (table.alone_files reached)

end Chronicle

/-- Whatever is done in a session, every pass was given a beginning of what an uninterrupted pass
is given, and passes and searches begun now find what they would have found at the start. -/
theorem Chronicle.given_is_uninterrupted (table : LineTable) (operations : List Operation) :
    let chronicle := (Chronicle.start table).performAll operations
    chronicle.session = (Session.ofTable table).performAll operations ∧
      (∀ id, ∃ ended, chronicle.given id <+: table.trace.answers ++ List.replicate ended none) ∧
      ∀ current, chronicle.session.shared = some current →
        current.trace.answers = table.trace.answers ∧
          ∀ address, (current.findAddress address).2 = (table.findAddress address).2 := by
  intro chronicle
  obtain ⟨reached, -, hkept⟩ := (start_keeps table).performAll operations
  refine ⟨session_performAll _ _, hkept.given_isPrefix, ?_⟩
  intro current hcurrent
  have hextends := hkept.shared current hcurrent
  exact ⟨hextends.answers_eq, hextends.findAddress_eq⟩

/-- The files known in a session are those of the start and then the declarations of an
uninterrupted pass up to some place that never moves back. A row keeps its file. -/
theorem Chronicle.files_are_declared_in_order (table : LineTable) :
    table.trace.files.files = table.files.files ++ table.declared ∧
    (5 ≤ table.program.header.version → table.declared = []) ∧
    ∀ before : List Operation,
      let session := (Session.ofTable table).performAll before
      (∀ current, session.shared = some current → ∃ known ≤ table.declared.length,
        current.files.files = table.files.files ++ table.declared.take known ∧
        ∀ after later, (session.performAll after).shared = some later →
          ∃ more ≤ table.declared.length, known ≤ more ∧
            later.files.files = table.files.files ++ table.declared.take more) ∧
      ∀ operation, ∀ row ∈ (session.perform operation).2.rows, ∀ after later,
        ((session.perform operation).1.performAll after).shared = some later →
          later.files.files[row.registers.fileIndex.toNat]? = some row.file := by
  refine ⟨table.files_append_declared, LineTable.declared_of_five, fun before => ?_⟩
  obtain ⟨reached, -, hkept⟩ := (start_keeps table).performAll before
  have hsession := session_performAll (start table) before
  intro session
  replace hsession : ((start table).performAll before).session = session := hsession
  constructor
  · intro current hcurrent
    rw [← hsession] at hcurrent
    refine ⟨table.declaredBy reached, LineTable.declaredBy_le reached,
      hkept.files_eq hcurrent, fun after later hlater => ?_⟩
    obtain ⟨more, hmore, hlast⟩ := hkept.performAll after
    rw [← hsession, ← session_performAll] at hlater
    exact ⟨table.declaredBy more, LineTable.declaredBy_le more, LineTable.declaredBy_mono hmore,
      hlast.files_eq hlater⟩
  · intro operation row hrow after later hlater
    rw [← hsession] at hrow hlater
    obtain ⟨next, -, hnext, hrows⟩ := hkept.perform operation
    obtain ⟨count, hcount, hanswer⟩ := hrows row hrow
    obtain ⟨more, hmore, hlast⟩ := hnext.performAll after
    have hperformed :=
      session_performAll (((start table).performAll before).perform operation) after
    have hshared := (congrArg Session.shared hperformed).trans hlater
    have hfiles := (hlast.shared later hshared).files.file? row.registers.fileIndex
    exact hfiles.trans (LineTable.file_of_answer hanswer (hcount.trans_le hmore))

/-- Of two passes over a program that declares a file, the second overtakes the first. From then on
the file is there once, whatever is done, and also when the first pass comes to the declaration. -/
theorem Chronicle.overtaken_pass_declares_once :
    ∃ table, LineTable.parse .little
        [26, 0, 0, 0, 2, 0, 8, 0, 0, 0, 1, 1, 0, 1, 2, 0, 0, 0,
          0, 6, 3, 97, 0, 0, 0, 0, 1, 0, 1, 1] 0 { compDir := "/", name := "u" } = .ok table ∧
      table.declared = [{ path := "/a", directoryIndex := 0 }] ∧
      let session := (Session.ofTable table).performAll [.start 0, .start 1, .next 1]
      (session.pass? 0).map (·.offset) = some 18 ∧ (session.pass? 1).map (·.offset) = some 27 ∧
      ∀ after later, (session.performAll after).shared = some later →
        later.files.files =
          [{ path := "/u", directoryIndex := 0 }, { path := "/a", directoryIndex := 0 }] := by
  have hknown : (LineTable.parse .little
      [26, 0, 0, 0, 2, 0, 8, 0, 0, 0, 1, 1, 0, 1, 2, 0, 0, 0,
        0, 6, 3, 97, 0, 0, 0, 0, 1, 0, 1, 1] 0 { compDir := "/", name := "u" }).map
        (fun table =>
          let session := (Session.ofTable table).performAll [.start 0, .start 1, .next 1]
          decide (table.files.files = [{ path := "/u", directoryIndex := 0 }] ∧
            table.declared = [{ path := "/a", directoryIndex := 0 }] ∧
            session.shared.map (·.files.files) =
              some [{ path := "/u", directoryIndex := 0 }, { path := "/a", directoryIndex := 0 }] ∧
            (session.pass? 0).map (·.offset) = some 18 ∧
            (session.pass? 1).map (·.offset) = some 27)) =
      .ok true := by
    decide +kernel
  obtain ⟨table, hparse, hfacts⟩ := exists_of_map_eq_ok hknown
  obtain ⟨hfiles, hdeclared, hshared, hfirst, hsecond⟩ := of_decide_eq_true hfacts
  refine ⟨table, hparse, hdeclared, hfirst, hsecond, fun after later hlater => ?_⟩
  obtain ⟨current, hcurrent, hall⟩ := Option.map_eq_some_iff.mp hshared
  obtain ⟨-, -, hreached⟩ := files_are_declared_in_order table
  obtain ⟨known, -, hsofar, hgrows⟩ := (hreached [.start 0, .start 1, .next 1]).1 current hcurrent
  obtain ⟨more, -, hmore, hlast⟩ := hgrows after later hlater
  rw [hfiles, hdeclared] at hsofar hlast
  -- The one declaration was known already, so no more of them can come.
  have hone : 1 ≤ known := by
    have hlength := congrArg List.length (hsofar.symm.trans hall)
    simp at hlength
    omega
  rw [hlast, List.take_of_length_le (hone.trans hmore)]
  rfl

end DwarfLines
