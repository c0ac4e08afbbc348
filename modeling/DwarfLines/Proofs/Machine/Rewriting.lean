import Mathlib
import DwarfLines.Proofs.Machine.Refusals
import DwarfLines.Proofs.Machine.Relocation

/-!
# Programs that are written anew

The bytes of an instruction can be replaced by others that come to the same: another encoding of
the instruction, or several instructions in its place. A program in which every instruction that a
pass executes is replaced in this way is run like the first one, although every place in it has
moved and the files may stand in another table. What a pass does not come to is kept as it is.
-/

namespace DwarfLines

namespace MachineState

variable (parameters : Parameters) (write : ℕ → Instruction → List UInt8 → List UInt8)

def knowsFile (state : MachineState) (row : Option Registers) : Bool :=
  row.all fun shown => (state.files.file? shown.fileIndex).isSome

/-- The rest of a program, in which each instruction that a pass executes is written anew. The
writer is told where the instruction stands and which bytes stand for it. -/
def rewrite (state : MachineState) (c : Cursor) : List UInt8 :=
  match h : Instruction.readWhole parameters c with
  | .error _ => c.rest
  | .ok (instruction, last) =>
    have := Cursor.length_lt (Instruction.consuming_readWhole parameters h)
    match state.step parameters c with
    | (_, .error _) => c.rest
    | (next, .ok (row, _)) =>
      write c.offset instruction (c.rest.take (last.offset - c.offset)) ++
        if next.knowsFile row then rewrite next last else last.rest
termination_by c.rest.length

/-- The writer that keeps every instruction as it stands. -/
def verbatim (_ : ℕ) (_ : Instruction) (taken : List UInt8) : List UInt8 := taken

/-- What instructions in front of a program come to: a row, or a place to go on at. -/
structure RunsTo (state : MachineState) (c : Cursor) (next : MachineState)
    (row : Option Registers) (last : Cursor) : Prop where
  not_atEnd : c.atEnd = false
  run_eq : run parameters state c =
    match row with
    | none => run parameters next last
    | some shown => (next, .ok (some shown, last))
  visits : row = none → ∀ ⦃final finish⦄, Visits parameters next last final finish →
    Visits parameters state c final finish

/-- A writer whose bytes come to the same as the instruction that they stand for, at any place and
on every table that takes declarations alike. -/
def Faithful : Prop :=
  ∀ ⦃registers own next c last row instruction taken⦄,
    step parameters ⟨registers, own⟩ c = (next, .ok (row, last)) →
    Instruction.readWhole parameters c = .ok (instruction, last) →
    c.Passes taken last → own.definedThrough ≤ c.offset →
    ∃ entries, next.files.GrewBy own entries ∧
      ∀ other place rest, other.TakesAlike own place →
        place + (write c.offset instruction taken).length < 2 ^ 64 →
        ∃ more, more.GrewBy other entries ∧
          more.definedThrough ≤ place + (write c.offset instruction taken).length ∧
          RunsTo parameters ⟨registers, other⟩
            ⟨place, write c.offset instruction taken ++ rest⟩ ⟨next.registers, more⟩ row
            ⟨place + (write c.offset instruction taken).length, rest⟩

variable {parameters write} {state other next : MachineState} {c place last : Cursor}
  {row : Option Registers}

theorem knowsFile_agrees (h : state.Agrees other) (row : Option Registers) :
    state.knowsFile row = other.knowsFile row := by
  cases row with
  | none => rfl
  | some shown => exact congrArg Option.isSome (h.files.file? shown.fileIndex)

theorem runsTo_of_step (h : step parameters state c = (next, .ok (row, last))) :
    RunsTo parameters state c next row last := by
  have hend := not_atEnd_of_step h
  constructor
  case not_atEnd => exact hend
  case run_eq =>
    cases row with
    | none => exact run_of_silent hend h
    | some shown => exact run_of_row hend h
  case visits =>
    rintro rfl final finish hvisits
    exact .later hend h hvisits

theorem runsTo_of_readsAs {instruction : Instruction} {offset : ℕ} {bytes : List UInt8}
    (h : Decoded.ReadsAs parameters instruction offset bytes)
    (hexecute : ∀ finish, state.execute parameters offset finish instruction = .ok (next, row))
    (rest : List UInt8) :
    RunsTo parameters state ⟨offset, bytes ++ rest⟩ next row ⟨offset + bytes.length, rest⟩ := by
  obtain ⟨finish, -, -, hstep⟩ := step_of_readsAs h state rest
  rw [hexecute finish] at hstep
  exact runsTo_of_step hstep

theorem RunsTo.trans (h : RunsTo parameters state c other none place)
    (h' : RunsTo parameters other place next row last) : RunsTo parameters state c next row last :=
  ⟨h.not_atEnd, h.run_eq.trans h'.run_eq,
    fun hrow _ _ hvisits => h.visits rfl (h'.visits hrow hvisits)⟩

/-- A writer is faithful whose bytes are read as the instruction that they stand for. -/
theorem faithful_of_readsAs
    (h : ∀ ⦃decoded c middle last taken⦄, Decoded.read parameters c = .ok (decoded, middle) →
      decoded.close middle = .ok ((), last) → c.Passes taken last →
      ∀ offset, offset + (write c.offset decoded.instruction taken).length < 2 ^ 64 →
        Decoded.ReadsAs parameters decoded.instruction offset
          (write c.offset decoded.instruction taken)) :
    Faithful parameters write := by
  intro registers own next c last row instruction taken hstep hwhole hpasses hown
  obtain ⟨decoded, operandsEnd, hread, hexecute, hclose⟩ := (step_eq_ok parameters).mp hstep
  have hsame : Instruction.readWhole parameters c = .ok (decoded.instruction, last) :=
    Reader.bind_eq_ok.mpr ⟨_, _, hread, Reader.bind_eq_ok.mpr ⟨_, _, hclose, rfl⟩⟩
  cases hsame.symm.trans hwhole
  obtain ⟨entries, hgrew, hthere⟩ := execute_elsewhere hexecute hown
  refine ⟨entries, hgrew, fun other place rest hother hfit => ?_⟩
  obtain ⟨finish, hlt, hle, hagain⟩ :=
    step_of_readsAs (h hread hclose hpasses place hfit) ⟨registers, other⟩ rest
  obtain ⟨more, hmore, hthrough, hexecuted⟩ := hthere other place finish hother hlt
  rw [hexecuted] at hagain
  exact ⟨more, hmore, hthrough.trans hle, runsTo_of_step hagain⟩

theorem faithful_verbatim : Faithful parameters verbatim := by
  refine faithful_of_readsAs fun decoded c middle last taken hread hclose hpasses => ?_
  obtain ⟨bytes, hbytes, hreads⟩ := Decoded.exists_readsAs hread hclose
  obtain rfl := hpasses.unique hbytes
  exact hreads

theorem rewrite_of_error {e : LineError} (h : step parameters state c = (next, .error e)) :
    rewrite parameters write state c = c.rest := by
  rw [rewrite]
  split
  · rfl
  · rw [h]

theorem rewrite_of_ok {instruction : Instruction} {taken : List UInt8}
    (h : step parameters state c = (next, .ok (row, last)))
    (hread : Instruction.readWhole parameters c = .ok (instruction, last))
    (htaken : c.Passes taken last) :
    rewrite parameters write state c = write c.offset instruction taken ++
      if next.knowsFile row then rewrite parameters write next last else last.rest := by
  rw [rewrite]
  split
  · rename_i hfails
    cases hfails.symm.trans hread
  · rename_i hagain
    cases hagain.symm.trans hread
    rw [h, htaken.eq_take]

theorem rewrite_of_atEnd (h : c.atEnd = true) : rewrite parameters write state c = [] := by
  obtain ⟨offset, rest⟩ := c
  obtain rfl : rest = [] := List.isEmpty_iff.mp h
  rw [rewrite]
  rfl

theorem rewrite_verbatim (state : MachineState) (c : Cursor) :
    rewrite parameters verbatim state c = c.rest := by
  induction hlength : c.rest.length using Nat.strong_induction_on generalizing state c with
  | _ length ih =>
    rcases hstep : step parameters state c with ⟨after, e | ⟨row, last⟩⟩
    · exact rewrite_of_error hstep
    · obtain ⟨instruction, -, hread, -⟩ := exists_readWhole_of_step hstep
      obtain ⟨taken, htaken, -⟩ := step_local hstep
      have hlt := Cursor.length_lt (step_lt parameters state hstep)
      rw [rewrite_of_ok hstep hread htaken, ih _ (hlength ▸ hlt) after last rfl, ite_self,
        htaken.rest]
      rfl

theorem rewrite_agrees (h : state.Agrees other) :
    rewrite parameters write state c = rewrite parameters write other c := by
  induction hlength : c.rest.length using Nat.strong_induction_on generalizing state other c with
  | _ length ih =>
    obtain ⟨hnext, hanswer⟩ := step_agrees parameters h c
    rcases hstep : step parameters other c with ⟨after, e | ⟨row, last⟩⟩
    · rw [hstep] at hanswer
      rw [rewrite_of_error hstep, rewrite_of_error (Prod.ext rfl hanswer)]
    · obtain ⟨instruction, -, hread, -⟩ := exists_readWhole_of_step hstep
      obtain ⟨taken, htaken, -⟩ := step_local hstep
      have hlt := Cursor.length_lt (step_lt parameters other hstep)
      rw [hstep] at hanswer hnext
      rw [rewrite_of_ok hstep hread htaken, rewrite_of_ok (Prod.ext rfl hanswer) hread htaken,
        knowsFile_agrees hnext, ih _ (hlength ▸ hlt) hnext rfl]

variable (parameters write) in
/-- The same registers at two places, behind the second of which the rest of the program is written
anew, with file tables that hold related entries and take declarations alike. -/
structure Rewritten (related : FileEntry → FileEntry → Prop) (state other : MachineState)
    (c place : Cursor) : Prop where
  registers : other.registers = state.registers
  takesAlike : other.files.TakesAlike state.files place.offset
  definedThrough_le : state.files.definedThrough ≤ c.offset
  files : List.Forall₂ related state.files.files other.files.files
  rest : place.rest = rewrite parameters write state c
  length_lt : c.offset + c.rest.length < 2 ^ 64
  place_length_lt : place.offset + place.rest.length < 2 ^ 64

variable {related : FileEntry → FileEntry → Prop}

/-- What was written in the place of an instruction comes to the same as the instruction. -/
theorem Rewritten.step (h : Rewritten parameters write related state other c place)
    (hwrite : Faithful parameters write) (hrelated : ∀ entry, related entry entry)
    (hstep : step parameters state c = (next, .ok (row, last))) :
    ∃ after finish, RunsTo parameters other place after row finish ∧ place ≤ finish ∧
      List.Forall₂ related next.files.files after.files.files ∧
      (next.knowsFile row = true →
        Rewritten parameters write related next after last finish) := by
  obtain ⟨registers, own⟩ := state
  obtain ⟨_, files⟩ := other
  obtain ⟨placeOffset, placeRest⟩ := place
  obtain ⟨rfl, htakes, hdefined, hfiles, hrest, hlength, hplace⟩ := h
  obtain ⟨instruction, -, hread, -⟩ := exists_readWhole_of_step hstep
  obtain ⟨taken, hpasses, -⟩ := step_local hstep
  obtain ⟨-, -, -, hthrough⟩ := step_declares hstep hdefined
  obtain ⟨entries, hgrew, hthere⟩ := hwrite hstep hread hpasses hdefined
  dsimp only at hrest hplace
  rw [rewrite_of_ok hstep hread hpasses] at hrest
  subst hrest
  rw [List.length_append, ← Nat.add_assoc] at hplace
  obtain ⟨more, hmore, hmoreThrough, hruns⟩ :=
    hthere files placeOffset _ htakes (Nat.lt_of_le_of_lt (Nat.le_add_right _ _) hplace)
  have hall : List.Forall₂ related next.files.files more.files := by
    rw [hgrew.files, hmore.files]
    exact List.rel_append hfiles (List.forall₂_same.mpr fun entry _ => hrelated entry)
  refine ⟨_, _, hruns, ⟨_, rfl, rfl⟩, hall, fun hknown => ?_⟩
  rw [if_pos hknown] at hplace ⊢
  refine ⟨rfl, htakes.grow hgrew hmore hmoreThrough, hthrough, hall, rfl, ?_, hplace⟩
  rw [hpasses.offset, Nat.add_assoc, ← List.length_append, ← hpasses.rest]
  exact hlength

theorem Rewritten.atEnd_iff (h : Rewritten parameters write related state other c place)
    (hwrite : Faithful parameters write) (hrelated : ∀ entry, related entry entry) :
    place.atEnd = c.atEnd := by
  by_cases hend : c.atEnd = true
  · rw [hend, Cursor.atEnd, h.rest, rewrite_of_atEnd hend]
    rfl
  · rcases hstep : MachineState.step parameters state c with ⟨after, e | ⟨row, last⟩⟩
    · rw [Cursor.atEnd, h.rest, rewrite_of_error hstep]
      rfl
    · obtain ⟨after, finish, hruns, -⟩ := h.step hwrite hrelated hstep
      rw [hruns.not_atEnd, not_atEnd_of_step hstep]

/-- An instruction that fails is kept, and fails again. -/
theorem Rewritten.step_error {e : LineError}
    (h : Rewritten parameters write related state other c place)
    (hstep : MachineState.step parameters state c = (next, .error e)) :
    ∃ after later, MachineState.step parameters other place = (after, .error later) := by
  rcases hother : MachineState.step parameters other place with ⟨after, later | ⟨row, last⟩⟩
  · exact ⟨after, later, rfl⟩
  · -- Had it succeeded there, then it would have here, where the same bytes stand.
    obtain ⟨registers, own⟩ := state
    obtain ⟨_, files⟩ := other
    obtain ⟨rfl, htakes, hdefined, -, hrest, hlength, -⟩ := h
    obtain ⟨taken, entries, hpasses, -, hthere⟩ :=
      step_elsewhere hother htakes.definedThrough_le
    rw [rewrite_of_error hstep, hpasses.rest] at hrest
    rw [← hrest, List.length_append, ← Nat.add_assoc] at hlength
    obtain ⟨more, -, -, hagain⟩ := hthere own c.offset last.rest
      ⟨htakes.compDir.symm, htakes.directories.symm, hdefined⟩
      (Nat.lt_of_le_of_lt (Nat.le_add_right _ _) hlength)
    rw [hrest] at hagain
    cases (congrArg Prod.snd hagain).symm.trans (congrArg Prod.snd hstep)

variable (parameters write) in
/-- Two runs, neither of which comes to a row, or both come to the same row and can go on. -/
inductive RunsAlike (related : FileEntry → FileEntry → Prop) :
    MachineState × Except LineError (Option Registers × Cursor) →
      MachineState × Except LineError (Option Registers × Cursor) → Prop
  | stop {run other : MachineState × Except LineError (Option Registers × Cursor)}
      (hrun : ∀ shown last, run.2 ≠ .ok (some shown, last))
      (hother : ∀ shown last, other.2 ≠ .ok (some shown, last)) : RunsAlike related run other
  | row {next after : MachineState} {shown : Registers} {last finish : Cursor}
      (hfiles : List.Forall₂ related next.files.files after.files.files)
      (hgoes : next.knowsFile (some shown) = true →
        Rewritten parameters write related next after last finish) :
      RunsAlike related (next, .ok (some shown, last)) (after, .ok (some shown, finish))

/-- A run over what was written anew comes to what the run over the program comes to. -/
theorem Rewritten.run (h : Rewritten parameters write related state other c place)
    (hwrite : Faithful parameters write) (hrelated : ∀ entry, related entry entry) :
    RunsAlike parameters write related (run parameters state c) (run parameters other place) := by
  fun_induction MachineState.run parameters state c generalizing other place with
  | case1 state c hend =>
    rw [run_of_atEnd ((h.atEnd_iff hwrite hrelated).trans hend)]
    exact .stop (by simp) (by simp)
  | case2 state c hend next e hstep =>
    have hplace := (h.atEnd_iff hwrite hrelated).trans (Bool.eq_false_iff.mpr hend)
    obtain ⟨after, later, hother⟩ := h.step_error hstep
    rw [run_of_error hplace hother]
    exact .stop (by simp) (by simp)
  | case3 state c hend next shown last hstep =>
    obtain ⟨after, finish, hruns, -, hfiles, hgoes⟩ := h.step hwrite hrelated hstep
    rw [hruns.run_eq]
    exact .row hfiles hgoes
  | case4 state c hend next last hstep hlt ih =>
    obtain ⟨after, finish, hruns, -, -, hgoes⟩ := h.step hwrite hrelated hstep
    rw [hruns.run_eq]
    exact ih (hgoes rfl)

end MachineState
end DwarfLines
