import Mathlib
import DwarfLines.Proofs.Machine.Refusals
import DwarfLines.Proofs.Machine.Rewriting

/-!
# The files that a program written anew leaves

Where a pass over a program fails, the pass over the program written anew fails as well, and nearly
always with the same files. The one thing that can differ is the file of a declaration whose end is
refused, which is added all the same: the end moves with the instruction, and where it no longer
fits in an offset the length is refused before the declaration is read.
-/

namespace DwarfLines

/-- What is told of a run: the steps that it makes, the files that it leaves and how it fails. -/
structure Course where
  steps : MachineState → Cursor → Prop
  files : List FileEntry
  failed : LineError → Prop

/-- A part of a run that leaves the files of the whole run. -/
structure Course.EndOf (part whole : Course) : Prop where
  steps : ∀ ⦃state c⦄, part.steps state c → whole.steps state c
  files : whole.files = part.files
  failed : ∀ ⦃e⦄, part.failed e → whole.failed e

/-- How one run adds an entry that another run lacks. Both fail at one declaration, with the same
bytes from there on. The one run adds the entry and is refused the declared end. The other one
stands further behind, where the declared length leads out of all offsets, so that it is refused
before the declaration is read. -/
inductive RefusedApart (parameters : Parameters) (own other : Course) (entry : FileEntry) : Prop
  | intro {state behind : MachineState} {c place : Cursor} {e : LineError} {length : UInt64}
    (hsteps : own.steps state c) (declaration : Declaration parameters state.files c)
    (hentry : declaration.entry = entry) (hclosing : declaration.closing = .error e)
    (hfailed : own.failed e) (hothers : other.steps behind place) (hrest : place.rest = c.rest)
    (hlt : c.offset < place.offset)
    (hstep : MachineState.step parameters behind place =
      (behind, .error (.format (.extendedLengthOverflow length))))
    (hotherFailed : other.failed (.format (.extendedLengthOverflow length)))

theorem RefusedApart.mono {parameters : Parameters} {own other whole otherWhole : Course}
    {entry : FileEntry} (h : RefusedApart parameters own other entry) (hown : own.EndOf whole)
    (hother : other.EndOf otherWhole) : RefusedApart parameters whole otherWhole entry := by
  obtain ⟨hsteps, declaration, hentry, hclosing, hfailed, hothers, hrest, hlt, hstep, hends⟩ := h
  exact ⟨hown.steps hsteps, declaration, hentry, hclosing, hown.failed hfailed,
    hother.steps hothers, hrest, hlt, hstep, hother.failed hends⟩

/-- The files that two runs leave: the same, or one of the runs lacks the last one of the other,
that of a declaration whose end is refused. -/
inductive LeftAlike (parameters : Parameters) (own other : Course) : Prop
  | same (h : other.files = own.files)
  | lost (entry : FileEntry) (h : own.files = other.files ++ [entry])
    (hrefused : RefusedApart parameters own other entry)
  | gained (entry : FileEntry) (h : other.files = own.files ++ [entry])
    (hrefused : RefusedApart parameters other own entry)

theorem LeftAlike.mono {parameters : Parameters} {own other whole otherWhole : Course}
    (h : LeftAlike parameters own other) (hown : own.EndOf whole)
    (hother : other.EndOf otherWhole) : LeftAlike parameters whole otherWhole := by
  cases h with
  | same h => exact .same (by rw [hown.files, hother.files, h])
  | lost entry h hrefused =>
    exact .lost entry (by rw [hown.files, hother.files, h]) (hrefused.mono hown hother)
  | gained entry h hrefused =>
    exact .gained entry (by rw [hown.files, hother.files, h]) (hrefused.mono hother hown)

theorem ExtendedBytes.read_of_overflow {parameters : Parameters} {instruction : Instruction}
    (extended : ExtendedBytes parameters instruction) {offset : ℕ}
    (h : 2 ^ 64 ≤ extended.endAt offset) (rest : List UInt8) :
    Decoded.read parameters ⟨offset, extended.front ++ rest⟩ =
      .error (.format (.extendedLengthOverflow extended.length)) := by
  have hnot : ¬ parameters.opcodeBase ≤ 0 := fun hle =>
    extended.opcodeBase (UInt8.le_antisymm hle UInt8.zero_le)
  have hbytes : extended.front ++ rest =
      [0] ++ (extended.lengthBytes ++ (extended.opcode :: extended.operands ++ rest)) := by
    simp [front]
  have hend : ¬ offset + 1 + extended.lengthBytes.length + extended.length.toNat <
      0x10000000000000000 := by
    rw [endAt] at h
    omega
  rw [hbytes, Decoded.read, (Reader.reads_byte offset 0).lift.bind_eq]
  simp only [hnot, if_true, if_false, Decoded.readExtended]
  rw [(extended.reads_length _).lift.bind_eq, Reader.bind_apply]
  simp only [Reader.offset, List.length_singleton, hend, if_false]
  rfl

/-- A declaration stands wherever its bytes stand, on a table that takes declarations alike, unless
it has moved so far behind that its length is refused there. -/
theorem Declaration.moved {parameters : Parameters} {files other : FileTable} {c place : Cursor}
    (declaration : Declaration parameters files c) (hother : other.TakesAlike files place.offset)
    (hrest : place.rest = c.rest) :
    (∃ copy : Declaration parameters other place, copy.entry = declaration.entry) ∨
      c.offset < place.offset ∧ ∃ length, ∀ state, MachineState.step parameters state place =
        (state, .error (.format (.extendedLengthOverflow length))) := by
  obtain ⟨record, declaredEnd, operandsEnd, entry, hlegacy, hread, -, hresolved⟩ := declaration
  obtain ⟨offset, rest⟩ := place
  rw [← FileTable.entryOf_congr hother.compDir hother.directories] at hresolved
  have hunseen := hother.definedThrough_le
  rcases Decoded.exists_bytes_of_read hread with
    ⟨opcode, operand, -, -, hpasses, hreads⟩ | ⟨extended, hpasses, -⟩
  · obtain rfl : rest = opcode :: operand ++ operandsEnd.rest := hrest.trans hpasses.rest
    exact .inl ⟨⟨record, _, _, entry, hlegacy, hreads offset _, hunseen, hresolved⟩, rfl⟩
  · obtain rfl : rest = extended.front ++ operandsEnd.rest := hrest.trans hpasses.rest
    rcases Nat.lt_or_ge (extended.endAt offset) (2 ^ 64) with hfits | hoverflow
    · have hreads := extended.reads_front hfits operandsEnd.rest
      exact .inl ⟨⟨record, _, _, entry, hlegacy, hreads, hunseen, hresolved⟩, rfl⟩
    · refine .inr ⟨?_, extended.length, fun state => ?_⟩
      · by_contra hnot
        have hle : extended.endAt offset ≤ extended.endAt c.offset :=
          Nat.add_le_add_right (Nat.not_lt.mp hnot) _
        have hrefused := extended.read_of_overflow (hoverflow.trans hle) operandsEnd.rest
        rw [← hpasses.rest] at hrefused
        cases hrefused.symm.trans hread
      · rw [MachineState.step, extended.read_of_overflow hoverflow]

namespace MachineState

variable {parameters : Parameters} {write : ℕ → Instruction → List UInt8 → List UInt8}
  {state other next after : MachineState} {c place : Cursor}

def course (parameters : Parameters) (state : MachineState) (c : Cursor) : Course where
  steps := Visits parameters state c
  files := (MachineState.run parameters state c).1.files.files
  failed e := (MachineState.run parameters state c).2 = .error e

theorem course_endOf
    (h : MachineState.run parameters state c = MachineState.run parameters other place)
    (hvisits : ∀ ⦃final d⦄, Visits parameters other place final d →
      Visits parameters state c final d) :
    (course parameters other place).EndOf (course parameters state c) where
  steps := hvisits
  files := congrArg (·.1.files.files) h
  failed _ he := (congrArg Prod.snd h).trans he

theorem course_files_of_error {e : LineError} (hend : c.atEnd = false)
    (h : MachineState.step parameters state c = (next, .error e)) :
    (course parameters state c).files = next.files.files :=
  congrArg (·.1.files.files) (run_of_error hend h)

theorem refusedApart_of_step {e : LineError} {length : UInt64}
    (declaration : Declaration parameters state.files c) (hclosing : declaration.closing = .error e)
    (hend : c.atEnd = false) (hplace : place.atEnd = false)
    (hstep : MachineState.step parameters state c = (next, .error e))
    (hrest : place.rest = c.rest) (hlt : c.offset < place.offset)
    (hother : MachineState.step parameters other place =
      (other, .error (.format (.extendedLengthOverflow length)))) :
    RefusedApart parameters (course parameters state c) (course parameters other place)
      declaration.entry := by
  have hfailed := congrArg Prod.snd (run_of_error hend hstep)
  have hotherFailed := congrArg Prod.snd (run_of_error hplace hother)
  exact ⟨.here hend, declaration, rfl, hclosing, hfailed, .here hplace, hrest, hlt, hother,
    hotherFailed⟩

/-- What an instruction that fails leaves, and what it leaves where it stands in the program written
anew. -/
theorem Rewritten.step_leaves {e later : LineError}
    (h : Rewritten parameters write (· = ·) state other c place) (hend : c.atEnd = false)
    (hplace : place.atEnd = false) (hstep : MachineState.step parameters state c = (next, .error e))
    (hother : MachineState.step parameters other place = (after, .error later)) :
    LeftAlike parameters (course parameters state c) (course parameters other place) := by
  have hfiles : state.files.files = other.files.files := List.forall₂_eq_eq_eq ▸ h.files
  have hrest : place.rest = c.rest := h.rest.trans (rewrite_of_error hstep)
  have hback : state.files.TakesAlike other.files c.offset :=
    ⟨h.takesAlike.compDir.symm, h.takesAlike.directories.symm, h.definedThrough_le⟩
  have hown := course_files_of_error hend hstep
  have hcopy := course_files_of_error hplace hother
  rcases files_of_step_error hstep with hsame | ⟨declaration, hclosing, htaken⟩
  · rcases files_of_step_error hother with hstill | ⟨copy, hclosing, htaken⟩
    · exact .same (by rw [hown, hcopy, hsame, hstill, hfiles])
    · rcases copy.moved hback hrest.symm with ⟨declaration, hentry⟩ | ⟨hlt, length, hrefused⟩
      · have htakes := declaration.files_of_step hstep
        exact .same (by simp [hown, hcopy, htakes, htaken, hentry, hfiles])
      · obtain ⟨rfl, -⟩ := Prod.mk.inj (hstep.symm.trans (hrefused state))
        exact .gained copy.entry (by simp [hown, hcopy, htaken, hfiles])
          (refusedApart_of_step copy hclosing hplace hend hother hrest.symm hlt (hrefused _))
  · rcases declaration.moved h.takesAlike hrest with ⟨copy, hentry⟩ | ⟨hlt, length, hrefused⟩
    · have htakes := copy.files_of_step hother
      exact .same (by simp [hown, hcopy, htaken, htakes, hentry, hfiles])
    · obtain ⟨rfl, -⟩ := Prod.mk.inj (hother.symm.trans (hrefused other))
      exact .lost declaration.entry (by simp [hown, hcopy, htaken, hfiles])
        (refusedApart_of_step declaration hclosing hend hplace hstep hrest hlt (hrefused _))

/-- The files that two runs leave, one of them over the program written anew. -/
theorem Rewritten.run_leaves (h : Rewritten parameters write (· = ·) state other c place)
    (hwrite : Faithful parameters write) :
    LeftAlike parameters (course parameters state c) (course parameters other place) := by
  have hrelated (entry : FileEntry) : entry = entry := rfl
  fun_induction MachineState.run parameters state c generalizing other place with
  | case1 state c hend =>
    have hfiles : state.files.files = other.files.files := List.forall₂_eq_eq_eq ▸ h.files
    have hplace := (h.atEnd_iff hwrite hrelated).trans hend
    exact .same (by simp [course, run_of_atEnd hend, run_of_atEnd hplace, hfiles])
  | case2 state c hend next e hstep =>
    replace hend := Bool.eq_false_iff.mpr hend
    obtain ⟨after, later, hother⟩ := h.step_error hstep
    exact h.step_leaves hend ((h.atEnd_iff hwrite hrelated).trans hend) hstep hother
  | case3 state c hend next shown last hstep =>
    obtain ⟨after, finish, hruns, -, hall, -⟩ := h.step hwrite hrelated hstep
    have hfiles : next.files.files = after.files.files := List.forall₂_eq_eq_eq ▸ hall
    have hrun := run_of_row (Bool.eq_false_iff.mpr hend) hstep
    exact .same (by simp [course, hrun, hruns.run_eq, hfiles])
  | case4 state c hend next last hstep hlt ih =>
    obtain ⟨after, finish, hruns, -, -, hgoes⟩ := h.step hwrite hrelated hstep
    replace hend := Bool.eq_false_iff.mpr hend
    have hlater := course_endOf (run_of_silent hend hstep) fun _ _ => .later hend hstep
    exact (ih (hgoes rfl)).mono hlater (course_endOf hruns.run_eq (hruns.visits rfl))

end MachineState
end DwarfLines
