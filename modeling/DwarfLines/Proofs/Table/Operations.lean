import Mathlib
import DwarfLines.Proofs.Table.LonePass
import DwarfLines.Table.Session

/-!
# What operations do to a session

An operation finds what it needs, or it changes nothing. `Session.Performs` has one case for each
thing that an operation can do, with what it found, what it leaves and what it gives, so what an
operation keeps is shown by these cases alone.
-/

namespace DwarfLines

namespace Session

variable (session : Session)

theorem pass?_setPass_self (id : ℕ) (pass : Pass) :
    (session.setPass id pass).pass? id = some pass := by
  simp [pass?, setPass]

theorem lookup_filter_ne {passes : List (ℕ × Pass)} {id other : ℕ} (h : other ≠ id) :
    (passes.filter (·.1 != id)).lookup other = passes.lookup other := by
  induction passes with
  | nil => rfl
  | cons entry rest ih =>
    obtain ⟨number, pass⟩ := entry
    by_cases hid : number = id
    · subst hid
      rw [List.lookup_cons, beq_eq_false_iff_ne.mpr h, ← ih]
      simp
    · simp [hid, ih, List.lookup_cons]

theorem pass?_setPass_of_ne {id other : ℕ} (pass : Pass) (h : other ≠ id) :
    (session.setPass id pass).pass? other = session.pass? other := by
  rw [pass?, setPass, List.lookup_cons, beq_eq_false_iff_ne.mpr h]
  exact lookup_filter_ne h

theorem lookup_filter_self (passes : List (ℕ × Pass)) (id : ℕ) :
    (passes.filter (·.1 != id)).lookup id = none := by
  rw [List.lookup_eq_none_iff]
  intro entry hentry
  have hne := (List.mem_filter.mp hentry).2
  simp only [bne_iff_ne, ne_eq] at hne
  simpa using Ne.symm hne

theorem pass?_of_removePass {id other : ℕ} {pass : Pass}
    (h : (session.removePass id).pass? other = some pass) : session.pass? other = some pass := by
  by_cases heq : other = id
  · subst heq
    have hnone := lookup_filter_self session.passes other
    rw [pass?, removePass, hnone] at h
    cases h
  · rwa [pass?, removePass, lookup_filter_ne heq] at h

theorem shared_of_release {current : LineTable} (h : session.release.shared = some current) :
    session.shared = some current := by
  unfold release at h
  split_ifs at h
  exact h

theorem pass?_release (id : ℕ) : session.release.pass? id = session.pass? id := by
  unfold release
  split_ifs <;> rfl

variable {session}

theorem shared_of_handle? {current : LineTable} (h : session.handle? = some current) :
    session.shared = some current := by
  unfold handle? at h
  split_ifs at h
  exact h

theorem perform_file {current : LineTable} (h : session.handle? = some current) (index : UInt64) :
    session.perform (.file index) =
      (session.setFiles (current.getFile index).1.files, .file (current.getFile index).2) := by
  rw [perform, withHandle, h]

theorem shared_setFiles {current : LineTable} (h : session.shared = some current)
    (files : FileTable) : (session.setFiles files).shared = some { current with files } := by
  simp [setFiles, h]

theorem files_of_setFiles {current later : LineTable} {files : FileTable}
    (h : session.shared = some current) (hlater : (session.setFiles files).shared = some later) :
    later.files = files := by
  rw [shared_setFiles h] at hlater
  cases hlater
  rfl

theorem pass?_setPass {id other : ℕ} {pass found : Pass}
    (h : (session.setPass id pass).pass? other = some found) :
    found = pass ∨ session.pass? other = some found := by
  by_cases heq : other = id
  · subst heq
    rw [pass?_setPass_self] at h
    exact .inl (Option.some.inj h).symm
  · rw [pass?_setPass_of_ne _ _ heq] at h
    exact .inr h

/-- What an operation leaves and gives, with what it finds in the session. -/
inductive Performs (session : Session) : Operation → Session → Outcome → Prop
  | noTable (operation : Operation) : Performs session operation session .noTable
  | noPass (operation : Operation) : Performs session operation session .noPass
  | rows {current : LineTable} (hshared : session.shared = some current) :
    Performs session .rows (session.setFiles current.trace.files) (.drained current.trace)
  | start (id : ℕ) {current : LineTable} (hshared : session.shared = some current) :
    Performs session (.start id) (session.setPass id (.start current.program))
      (.place (.start current.program))
  | next (id : ℕ) {current : LineTable} {pass : Pass} (hshared : session.shared = some current)
    (hpass : session.pass? id = some pass) :
    Performs session (.next id)
      ((session.setFiles (pass.next current.program current.files).files).setPass id
        (pass.next current.program current.files).pass)
      (.advanced (pass.next current.program current.files).pass
        (pass.next current.program current.files).answer)
  | drain (id : ℕ) {current : LineTable} {pass : Pass} (hshared : session.shared = some current)
    (hpass : session.pass? id = some pass) :
    Performs session (.drain id)
      ((session.setFiles (pass.trace current.program current.files).files).setPass id
        (pass.trace current.program current.files).pass)
      (.drained (pass.trace current.program current.files))
  | clone (id source : ℕ) {pass : Pass} (hpass : session.pass? source = some pass) :
    Performs session (.clone id source) (session.setPass id pass) (.place pass)
  | drop (id : ℕ) :
    Performs session (.drop id) (session.removePass id).release
      (.dropped (session.pass? id).isSome)
  | find (address : UInt64) {current : LineTable} (hshared : session.shared = some current) :
    Performs session (.find address) (session.setFiles (current.findAddress address).1.files)
      (.found (current.findAddress address).2)
  | file (index : UInt64) {current : LineTable} (hshared : session.shared = some current) :
    Performs session (.file index) (session.setFiles (current.getFile index).1.files)
      (.file (current.getFile index).2)
  | downgrade : Performs session .downgrade { session with weak := true } .downgraded
  | dropHandle :
    Performs session .dropHandle ({ session with held := false } : Session).release
      (.dropped session.held)
  | restored : Performs session .restore { session with held := true } (.restored true)
  | notRestored : Performs session .restore session (.restored false)

theorem performs_withHandle {operation : Operation} {action : LineTable → Session × Outcome}
    (h : ∀ current, session.shared = some current →
      session.Performs operation (action current).1 (action current).2) :
    session.Performs operation (session.withHandle action).1 (session.withHandle action).2 := by
  unfold withHandle
  cases hhandle : session.handle? with
  | none => exact .noTable operation
  | some current => exact h current (shared_of_handle? hhandle)

theorem performs_withPass {operation : Operation} {id : ℕ}
    {action : LineTable → Pass → Session × Outcome}
    (h : ∀ current pass, session.shared = some current → session.pass? id = some pass →
      session.Performs operation (action current pass).1 (action current pass).2) :
    session.Performs operation (session.withPass id action).1 (session.withPass id action).2 := by
  unfold withPass
  cases hshared : session.shared with
  | none => exact .noPass operation
  | some current =>
    cases hpass : session.pass? id with
    | none => exact .noPass operation
    | some pass => exact h current pass hshared hpass

theorem performs (session : Session) (operation : Operation) :
    session.Performs operation (session.perform operation).1 (session.perform operation).2 := by
  cases operation with
  | rows => exact performs_withHandle fun current hshared => .rows hshared
  | start id => exact performs_withHandle fun current hshared => .start id hshared
  | next id => exact performs_withPass fun current pass hshared hpass => .next id hshared hpass
  | drain id => exact performs_withPass fun current pass hshared hpass => .drain id hshared hpass
  | clone id source => exact performs_withPass fun current pass _ hpass => .clone id source hpass
  | drop id => exact .drop id
  | find address => exact performs_withHandle fun current hshared => .find address hshared
  | file index => exact performs_withHandle fun current hshared => .file index hshared
  | downgrade => exact performs_withHandle fun current _ => .downgrade
  | dropHandle => exact .dropHandle
  | restore =>
    unfold perform
    cases session.upgrade? with
    | none => exact .notRestored
    | some current => exact .restored

end Session
end DwarfLines
