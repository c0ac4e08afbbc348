import Mathlib
import DwarfLines.Proofs.Table.FileLookup

/-!
# Weak handles

A table lives exactly as long as its handle or some pass over it is there. This account of its
holders is kept by every operation, and no operation brings a table back, so a weak handle tells
whether something still holds the table and never anything else. What the table has learned stays
with it: files are only appended, completeness is not taken back and scans are only counted up.
The handle itself adds nothing to that. While it is gone passes do what they would do otherwise,
and everything else is refused, so restoring it leaves the session that never lost it.
-/

namespace DwarfLines

/-- A file table that has lost nothing of what another one knew. -/
structure FileTable.Retains (table other : FileTable) : Prop where
  covers : table.Covers other
  complete : other.complete = true → table.complete = true
  fullScans : other.fullScans ≤ table.fullScans

namespace FileTable.Retains

variable {a b c : FileTable}

theorem refl (table : FileTable) : table.Retains table := ⟨.refl _, id, le_rfl⟩

theorem trans (hab : a.Retains b) (hbc : b.Retains c) : a.Retains c :=
  ⟨hab.covers.trans hbc.covers, fun h => hab.complete (hbc.complete h),
    hbc.fullScans.trans hab.fullScans⟩

theorem markComplete (h : a.Retains b) : a.markComplete.Retains b :=
  ⟨a.markComplete_agrees.covers.trans h.covers, fun _ => rfl, h.fullScans⟩

theorem recordFullScan (table : FileTable) : table.recordFullScan.Retains table :=
  ⟨table.recordFullScan_agrees.covers, id, Nat.le_succ _⟩

end FileTable.Retains

theorem Pass.next_retains (program : LineProgram) (files : FileTable) (pass : Pass) :
    (pass.next program files).files.Retains files := by
  obtain ⟨hscans, hstays, -⟩ := next_notes program files pass
  exact ⟨pass.next_covers program files, hstays, hscans.ge⟩

theorem Pass.trace_retains (program : LineProgram) (files : FileTable) (pass : Pass) :
    ∀ met ∈ (pass.trace program files).tables, met.Retains files := by
  fun_induction Pass.trace program files pass with
  | case1 files pass advance hanswer =>
    intro met hmet
    rw [List.mem_singleton.mp hmet]
    exact pass.next_retains program files
  | case2 files pass advance e hanswer =>
    intro met hmet
    rw [List.mem_singleton.mp hmet]
    exact pass.next_retains program files
  | case3 files pass advance row hanswer hoffset rest ih =>
    intro met hmet
    rcases List.mem_cons.mp hmet with rfl | hmore
    · exact pass.next_retains program files
    · exact (ih met hmore).trans (pass.next_retains program files)

theorem LineTable.getFile_retains (table : LineTable) (index : UInt64) :
    (table.getFile index).1.files.Retains table.files := by
  have hran := (Pass.trace_retains table.program table.files.recordFullScan
    (Pass.start table.program) _ (Trace.files_mem_tables _)).trans (.recordFullScan _)
  unfold getFile scan
  split_ifs
  · exact .refl _
  · cases hfault : ((Pass.start table.program).trace table.program
        table.files.recordFullScan).fault with
    | some e => simpa [hfault] using hran
    | none => simpa [hfault] using hran.markComplete

namespace Session

variable {session : Session}

theorem Yields.retains {current : LineTable} {files : FileTable}
    (h : session.Yields current files) : files.Retains current.files := by
  cases h with
  | same => exact .refl _
  | traced _ hmet => exact Pass.trace_retains _ _ _ _ hmet
  | looked index => exact current.getFile_retains index

theorem performAll_cons (operation : Operation) (rest : List Operation) :
    session.performAll (operation :: rest) = (session.perform operation).1.performAll rest := rfl

theorem performAll_append (operations more : List Operation) :
    session.performAll (operations ++ more) = (session.performAll operations).performAll more :=
  List.foldl_append

/-- A table that is there after some operations was there before, and lost nothing. -/
theorem shared_of_performAll {operations : List Operation} {later : LineTable}
    (h : (session.performAll operations).shared = some later) :
    ∃ current, session.shared = some current ∧ later.files.Retains current.files := by
  induction operations generalizing session with
  | nil => exact ⟨later, h, .refl _⟩
  | cons operation rest ih =>
    obtain ⟨next, hnext, hlater⟩ := ih h
    obtain ⟨current, hcurrent, hyields⟩ := shared_of_perform hnext
    exact ⟨current, hcurrent, hlater.trans hyields.retains⟩

/-! ### What holds a table -/

/-- Whether the handle or some pass, finished or not, holds the table. -/
def IsHeld (session : Session) : Prop :=
  session.held = true ∨ ∃ id pass, session.pass? id = some pass

/-- Whether a session has a table exactly if something holds it. -/
def Accounted (session : Session) : Prop := session.shared.isSome ↔ session.IsHeld

theorem exists_pass? : (∃ id pass, session.pass? id = some pass) ↔ session.passes ≠ [] := by
  constructor
  · rintro ⟨id, pass, hpass⟩ hnone
    simp [pass?, hnone] at hpass
  · intro hsome
    obtain ⟨⟨id, pass⟩, rest, hpasses⟩ := List.exists_cons_of_ne_nil hsome
    exact ⟨id, pass, by simp [pass?, hpasses]⟩

theorem isHeld_iff : session.IsHeld ↔ (session.held || !session.passes.isEmpty) = true := by
  simp [IsHeld, exists_pass?]

theorem isHeld_setPass (session : Session) (id : ℕ) (pass : Pass) :
    (session.setPass id pass).IsHeld :=
  .inr ⟨id, pass, session.pass?_setPass_self id pass⟩

theorem release_of_isHeld (h : session.IsHeld) : session.release = session := by
  rw [release, if_pos (isHeld_iff.mp h)]

theorem accounted_release (h : session.IsHeld → session.shared.isSome) :
    session.release.Accounted := by
  by_cases hheld : session.IsHeld
  · rw [release_of_isHeld hheld]
    exact ⟨fun _ => hheld, h⟩
  · rw [release, if_neg (mt isHeld_iff.mpr hheld)]
    exact ⟨fun hsome => by simp at hsome, fun hstill => absurd hstill hheld⟩

theorem accounted_of_isHeld (hshared : session.shared.isSome) (hheld : session.IsHeld) :
    session.Accounted :=
  ⟨fun _ => hheld, fun _ => hshared⟩

theorem isSome_setFiles (session : Session) (files : FileTable) :
    (session.setFiles files).shared.isSome = session.shared.isSome := by
  simp [setFiles]

theorem upgrade?_of_restored (h : (session.perform .restore).2 = .restored true) :
    session.upgrade?.isSome := by
  cases hfound : session.upgrade? with
  | none => simp [perform, hfound] at h
  | some found => rfl

theorem isSome_of_upgrade? (h : session.upgrade?.isSome) : session.shared.isSome := by
  unfold upgrade? at h
  split_ifs at h
  · exact h
  · simp at h

/-- Every operation keeps the account of what holds the table. -/
theorem Accounted.perform (h : session.Accounted) (operation : Operation) :
    (session.perform operation).1.Accounted := by
  have hperforms := session.performs operation
  generalize (session.perform operation).1 = left at hperforms ⊢
  generalize houtcome : (session.perform operation).2 = outcome at hperforms
  cases hperforms with
  | rows hshared | find address hshared | file index hshared =>
    rw [Accounted, isSome_setFiles]
    exact h
  | start id hshared =>
    exact accounted_of_isHeld (by simp [setPass, hshared]) (isHeld_setPass _ _ _)
  | next id hshared hpass | drain id hshared hpass =>
    exact accounted_of_isHeld (by simp [setPass, setFiles, hshared]) (isHeld_setPass _ _ _)
  | clone id source hpass =>
    exact accounted_of_isHeld (h.mpr (.inr ⟨source, _, hpass⟩)) (isHeld_setPass _ _ _)
  | drop id =>
    refine accounted_release fun hheld => h.mpr (hheld.imp_right ?_)
    rintro ⟨other, pass, hpass⟩
    exact ⟨other, pass, session.pass?_of_removePass hpass⟩
  | dropHandle => exact accounted_release fun hheld => h.mpr (.inr (hheld.resolve_left (by simp)))
  | restored =>
    have hshared := isSome_of_upgrade? (upgrade?_of_restored houtcome)
    exact accounted_of_isHeld hshared (.inl rfl)
  | _ => exact h

theorem Accounted.performAll (h : session.Accounted) (operations : List Operation) :
    (session.performAll operations).Accounted := by
  induction operations generalizing session with
  | nil => exact h
  | cons operation rest ih => exact ih (h.perform operation)

/-! ### Sessions without the handle -/

theorem weak_release (session : Session) : session.release.weak = session.weak := by
  unfold release
  split_ifs <;> rfl

theorem weak_perform (h : session.weak = true) (operation : Operation) :
    (session.perform operation).1.weak = true := by
  have hperforms := session.performs operation
  generalize (session.perform operation).1 = left at hperforms ⊢
  generalize (session.perform operation).2 = outcome at hperforms
  cases hperforms with
  | drop id => rw [weak_release]; exact h
  | dropHandle => rw [weak_release]; exact h
  | downgrade => rfl
  | _ => exact h

theorem weak_performAll (h : session.weak = true) (operations : List Operation) :
    (session.performAll operations).weak = true := by
  induction operations generalizing session with
  | nil => exact h
  | cons operation rest ih => exact ih (weak_perform h operation)

theorem upgrade?_of_weak (h : session.weak = true) : session.upgrade? = session.shared := by
  rw [upgrade?, if_pos h]

end Session

/-- Whether an operation works on a pass and does not need the handle. -/
def Operation.worksOnPass : Operation → Bool
  | next _ | drain _ | clone _ _ | drop _ => true
  | _ => false

namespace Session

variable {session : Session}

def hold (session : Session) : Session := { session with held := true }

/-- A session that still has its table after giving it up did not give it up. -/
theorem release_of_isSome (h : session.release.shared.isSome) : session.release = session := by
  unfold release at h ⊢
  split_ifs at h ⊢
  · rfl
  · simp at h

theorem withPass_hold (id : ℕ) {action actionHeld : LineTable → Pass → Session × Outcome}
    (h : ∀ current pass,
      actionHeld current pass = ((action current pass).1.hold, (action current pass).2)) :
    session.hold.withPass id actionHeld =
      ((session.withPass id action).1.hold, (session.withPass id action).2) := by
  have hshared : session.hold.shared = session.shared := rfl
  have hpass : session.hold.pass? id = session.pass? id := rfl
  unfold withPass
  rw [hshared, hpass]
  cases session.shared with
  | none => rfl
  | some current =>
    cases session.pass? id with
    | none => rfl
    | some pass => exact h current pass

/-- What works on a pass does the same whether the handle is there or not, as long as there is a
table. -/
theorem perform_hold {operation : Operation} (h : operation.worksOnPass = true)
    (hlives : (session.perform operation).1.shared.isSome) :
    session.hold.perform operation =
      ((session.perform operation).1.hold, (session.perform operation).2) := by
  cases operation with
  | next id | drain id | clone id source => exact withPass_hold _ fun _ _ => rfl
  | drop id =>
    have hkept := release_of_isSome hlives
    have hheld : (session.hold.removePass id).release = (session.removePass id).hold :=
      release_of_isHeld (.inl rfl)
    rw [perform, perform, hkept, hheld]
    rfl
  | _ => cases h

theorem held_release (session : Session) : session.release.held = session.held := by
  unfold release
  split_ifs <;> rfl

theorem held_perform {operation : Operation} (h : operation.worksOnPass = true) :
    (session.perform operation).1.held = session.held := by
  have hperforms := session.performs operation
  generalize (session.perform operation).1 = left at hperforms ⊢
  generalize (session.perform operation).2 = outcome at hperforms
  cases hperforms with
  | drop id => exact held_release _
  | noTable | noPass | next | drain | clone => rfl
  | _ => cases h

theorem perform_without_handle (hheld : session.held = false) (haccounted : session.Accounted)
    {operation : Operation} (h : operation.worksOnPass = false) (hrestore : operation ≠ .restore) :
    (session.perform operation).1 = session := by
  have hhandle : session.handle? = none := by simp [handle?, hheld]
  cases operation with
  | rows | start id | find address | file index | downgrade =>
    simp only [perform, withHandle, hhandle]
  | dropHandle =>
    obtain ⟨shared, held, weak, passes⟩ := session
    obtain rfl : held = false := hheld
    by_cases hpass : passes = []
    · obtain rfl : shared = none := by
        simpa [Accounted, isHeld_iff, hpass] using haccounted
      simp [perform, release, hpass]
    · simp [perform, release, hpass]
  | restore => exact absurd rfl hrestore
  | _ => cases h

/-- Without the handle, until it is restored, a session that keeps its table goes where it would go
with the handle, had nothing else been asked for than what works on passes. -/
theorem performAll_without_handle (hheld : session.held = false) (haccounted : session.Accounted)
    {gap : List Operation} (hrestore : .restore ∉ gap)
    (hlives : (session.performAll gap).shared.isSome) :
    (session.performAll gap).hold =
      session.hold.performAll (gap.filter Operation.worksOnPass) := by
  induction gap generalizing session with
  | nil => rfl
  | cons operation rest ih =>
    obtain ⟨hother, hrest⟩ := not_or.mp (mt List.mem_cons.mpr hrestore)
    rw [performAll_cons] at hlives ⊢
    cases hworks : operation.worksOnPass with
    | false =>
      rw [perform_without_handle hheld haccounted hworks (Ne.symm hother)] at hlives ⊢
      rw [List.filter_cons_of_neg (by simp [hworks]), ih hheld haccounted hrest hlives]
    | true =>
      obtain ⟨later, hlater⟩ := Option.isSome_iff_exists.mp hlives
      obtain ⟨current, hcurrent, -⟩ := shared_of_performAll hlater
      have hstep := perform_hold hworks (Option.isSome_iff_exists.mpr ⟨current, hcurrent⟩)
      rw [List.filter_cons_of_pos hworks, performAll_cons, hstep]
      exact ih ((held_perform hworks).trans hheld) (haccounted.perform operation) hrest hlives

theorem perform_restore {found : LineTable} (h : session.upgrade? = some found) :
    session.perform .restore = (session.hold, .restored true) := by
  simp [perform, h, hold]

/-- Losing the handle for a while and restoring it is as if it had been there all the time, and
what needs it had not been asked for meanwhile. -/
theorem performAll_restored (hweak : session.weak = true) (haccounted : session.Accounted)
    {gap : List Operation} (hrestore : .restore ∉ gap)
    (hlives : (session.performAll (.dropHandle :: gap)).shared.isSome) :
    session.performAll (.dropHandle :: gap ++ [.restore]) =
      session.hold.performAll (gap.filter Operation.worksOnPass) := by
  obtain ⟨found, hfound⟩ := Option.isSome_iff_exists.mp hlives
  have hweakLater := weak_performAll hweak (.dropHandle :: gap)
  have hrestored := perform_restore ((upgrade?_of_weak hweakLater).trans hfound)
  rw [performAll_append, performAll_cons _ [], hrestored]
  rw [performAll_cons] at hfound
  obtain ⟨current, hcurrent, -⟩ := shared_of_performAll hfound
  have hdropped : (session.perform .dropHandle).1 = { session with held := false } :=
    release_of_isSome (Option.isSome_iff_exists.mpr ⟨current, hcurrent⟩)
  have hkept := haccounted.perform .dropHandle
  rw [performAll_cons] at hlives ⊢
  rw [hdropped] at hkept hlives ⊢
  exact performAll_without_handle rfl hkept hrestore hlives

/-- Once a weak handle was taken, it is alive exactly while the handle or some pass is there. Once
it is not alive it never is again. While it is alive it finds the table with all that was known at
any moment since, restoring the handle gives that table back, and a handle that is lost and restored
leaves the session that never lost it. -/
theorem weak_handle_neither_keeps_nor_revives (table : LineTable) (before after : List Operation) :
    let taken := (ofTable table).performAll before
    let session := taken.performAll after
    taken.weak = true →
      (session.upgrade?.isSome ↔
        session.held = true ∨ ∃ id pass, session.pass? id = some pass) ∧
      (taken.upgrade? = none → session.upgrade? = none) ∧
      (∀ current found, taken.upgrade? = some current → session.upgrade? = some found →
        found.program = table.program ∧ found.files.Retains current.files ∧
        session.perform .restore = (session.hold, .restored true) ∧
        session.hold.handle? = some found) ∧
      ∀ gap, .restore ∉ gap →
        (session.performAll (.dropHandle :: gap)).upgrade?.isSome →
        session.performAll (.dropHandle :: gap ++ [.restore]) =
          session.hold.performAll (gap.filter Operation.worksOnPass) := by
  intro taken session hweak
  have hweakLater : session.weak = true := weak_performAll hweak after
  have hbegin : (ofTable table).Accounted := accounted_of_isHeld rfl (.inl rfl)
  have haccounted : session.Accounted := (hbegin.performAll before).performAll after
  rw [upgrade?_of_weak hweak, upgrade?_of_weak hweakLater]
  refine ⟨haccounted, ?_, ?_, ?_⟩
  · intro hdead
    by_contra halive
    obtain ⟨found, hfound⟩ := Option.ne_none_iff_exists'.mp halive
    obtain ⟨current, hcurrent, -⟩ := shared_of_performAll hfound
    rw [hdead] at hcurrent
    cases hcurrent
  · intro current found hcurrent hfound
    obtain ⟨known, hknown, hretains⟩ := shared_of_performAll hfound
    obtain rfl := Option.some.inj (hcurrent.symm.trans hknown)
    refine ⟨?_, hretains, perform_restore ((upgrade?_of_weak hweakLater).trans hfound), hfound⟩
    obtain ⟨reached, -, hkept⟩ := (Chronicle.start_keeps table).performAll (before ++ after)
    have hshared := hkept.shared found
    rw [Chronicle.session_performAll] at hshared
    exact (hshared ((congrArg shared (performAll_append before after)).trans hfound)).program
  · intro gap hrestore hlives
    rw [upgrade?_of_weak (weak_performAll hweakLater _)] at hlives
    exact performAll_restored hweakLater haccounted hrestore hlives

/-- A pass that has run through keeps the table of a unit with one late file, which the weak handle
then finds with that file. When the pass is dropped as well, the table is gone for good. -/
theorem weak_handle_of_finished_pass :
    ∃ table found, LineTable.parse .little
        [26, 0, 0, 0, 2, 0, 8, 0, 0, 0, 1, 1, 0, 1, 2, 0, 0, 0,
          0, 6, 3, 97, 0, 0, 0, 0, 1, 0, 1, 1] 0 { compDir := "/", name := "u" } = .ok table ∧
      let session := (ofTable table).performAll [.start 0, .drain 0, .downgrade, .dropHandle]
      session.upgrade? = some found ∧ found.program = table.program ∧
        found.files.files.map (·.path) = ["/u", "/a"] ∧
        ∀ after, ((session.perform (.drop 0)).1.performAll after).upgrade? = none := by
  have hknown : (LineTable.parse .little
      [26, 0, 0, 0, 2, 0, 8, 0, 0, 0, 1, 1, 0, 1, 2, 0, 0, 0,
        0, 6, 3, 97, 0, 0, 0, 0, 1, 0, 1, 1] 0 { compDir := "/", name := "u" }).map
        (fun table => table.trace.files.files.map (·.path)) = .ok ["/u", "/a"] := by
    decide +kernel
  obtain ⟨table, hparse, hpaths⟩ := exists_of_map_eq_ok hknown
  obtain ⟨-, -, hfound, -⟩ := weak_handle_neither_keeps_nor_revives table
    [.start 0, .drain 0, .downgrade] [.dropHandle] rfl
  refine ⟨table, { table with files := table.trace.files }, hparse, rfl, ?_, hpaths, ?_⟩
  · exact (hfound { table with files := table.trace.files } _ rfl rfl).1
  · intro after
    obtain ⟨-, hdead, -⟩ := weak_handle_neither_keeps_nor_revives table
      [.start 0, .drain 0, .downgrade, .dropHandle, .drop 0] after rfl
    exact hdead rfl

end Session
end DwarfLines
