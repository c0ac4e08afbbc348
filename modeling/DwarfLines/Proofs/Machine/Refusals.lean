import Mathlib
import DwarfLines.Proofs.Machine.SharedFiles

/-!
# Declarations whose end is refused

A step appends a file as soon as it executes a declaration that no pass has met before, and only
then looks for the end of the instruction. If that end is refused the step fails and the file stays.
Nothing else that fails changes the file table. A run therefore appends files one declaration at a
time, each of them accepted, except that the declaration at which the run fails may be refused; its
file is then the last.
-/

namespace DwarfLines

/-- A file declaration that stands at a place and that no pass has met before, with the entry that
it adds to a file table. -/
structure Declaration (parameters : Parameters) (files : FileTable) (place : Cursor) where
  record : FileRecord
  declaredEnd : Option DeclaredEnd
  operandsEnd : Cursor
  entry : FileEntry
  legacy : ¬ 5 ≤ parameters.version
  read : Decoded.read parameters place =
    .ok ({ instruction := .defineFile record, declaredEnd }, operandsEnd)
  unseen : files.definedThrough ≤ place.offset
  resolved : files.entryOf record = .ok entry

namespace Declaration

variable {parameters : Parameters} {files : FileTable} {place : Cursor}
  (declaration : Declaration parameters files place)

/-- Moves to the end that the declaration declares, if that is not refused. -/
def closing : Except LineError (Unit × Cursor) :=
  Decoded.close { instruction := .defineFile declaration.record
                  declaredEnd := declaration.declaredEnd } declaration.operandsEnd

def taken : FileTable :=
  { files.append declaration.entry with definedThrough := declaration.operandsEnd.offset }

@[simp]
theorem taken_files : declaration.taken.files = files.files ++ [declaration.entry] := rfl

/-- The step at a declaration adds its entry, whether or not the end is refused. -/
theorem step_eq (registers : Registers) :
    MachineState.step parameters ⟨registers, files⟩ place =
      (⟨registers, declaration.taken⟩, declaration.closing.map fun (_, last) => (none, last)) := by
  have hdefine : files.define place.offset declaration.operandsEnd.offset declaration.record = _ :=
    FileTable.define_of_le declaration.record declaration.unseen
  simp only [MachineState.step, declaration.read, MachineState.execute, if_neg declaration.legacy,
    hdefine, declaration.resolved, closing, taken]
  simp only [Except.map, bind, Except.bind, pure, Except.pure]
  generalize Decoded.close _ _ = closed
  rcases closed with e | ⟨_, last⟩ <;> rfl

theorem files_of_step {registers : Registers} {next : MachineState}
    {result : Except LineError (Option Registers × Cursor)}
    (h : MachineState.step parameters ⟨registers, files⟩ place = (next, result)) :
    next.files = declaration.taken :=
  congrArg (·.1.files) (h.symm.trans (declaration.step_eq registers))

end Declaration

namespace MachineState

variable (parameters : Parameters)

theorem step_leaves_executed {place operandsEnd : Cursor} {decoded : Decoded}
    (hread : Decoded.read parameters place = .ok (decoded, operandsEnd)) (state : MachineState) :
    (step parameters state place).1 =
      match state.execute parameters place.offset operandsEnd.offset decoded.instruction with
      | .error _ => state
      | .ok (next, _) => next := by
  simp only [step, hread]
  rcases state.execute parameters place.offset operandsEnd.offset decoded.instruction with
    e | ⟨next, row⟩
  · rfl
  · cases decoded.close operandsEnd <;> rfl

/-- A step changes the file table at a declaration that was not met before, and nowhere else. -/
theorem step_files (state : MachineState) (place : Cursor) :
    (step parameters state place).1.files = state.files ∨
      Nonempty (Declaration parameters state.files place) := by
  obtain ⟨registers, files⟩ := state
  cases hread : Decoded.read parameters place with
  | error e => exact .inl (by simp only [step, hread])
  | ok p =>
    obtain ⟨⟨instruction, declaredEnd⟩, operandsEnd⟩ := p
    rw [step_leaves_executed parameters hread]
    dsimp only
    cases hdeclared : instruction.declared? parameters with
    | none =>
      left
      obtain ⟨effect, heffect⟩ :=
        execute_quiet parameters hdeclared registers place.offset operandsEnd.offset
      rw [heffect]
      cases effect <;> rfl
    | some record =>
      rw [execute_declared parameters hdeclared]
      obtain ⟨rfl, hlegacy⟩ := Instruction.declared_eq_some hdeclared
      rcases Nat.lt_or_ge place.offset files.definedThrough with hseen | hunseen
      · left
        rw [FileTable.define_of_lt record hseen]
        rfl
      · cases hresolved : files.entryOf record with
        | error e =>
          left
          rw [FileTable.define_of_le record hunseen, hresolved]
          rfl
        | ok entry =>
          exact .inr ⟨⟨record, declaredEnd, operandsEnd, entry, hlegacy, hread, hunseen,
            hresolved⟩⟩

variable {parameters}

/-- A step that fails leaves the file table, unless it fails because the end of a declaration that
was not met before is refused. Then it has added the entry. -/
theorem files_of_step_error {state next : MachineState} {place : Cursor} {e : LineError}
    (h : step parameters state place = (next, .error e)) :
    next.files = state.files ∨
      ∃ declaration : Declaration parameters state.files place,
        declaration.closing = .error e ∧ next.files = declaration.taken := by
  rcases step_files parameters state place with hsame | ⟨⟨declaration⟩⟩
  · rw [h] at hsame
    exact .inl hsame
  · refine .inr ⟨declaration, ?_⟩
    have hstep := declaration.step_eq state.registers
    rw [show (⟨state.registers, state.files⟩ : MachineState) = state from rfl, h] at hstep
    obtain ⟨hnext, hclosing⟩ := Prod.mk.inj hstep
    refine ⟨?_, congrArg MachineState.files hnext⟩
    cases hclosed : declaration.closing with
    | error e' =>
      rw [hclosed] at hclosing
      exact congrArg Except.error (Except.error.inj hclosing).symm
    | ok closed =>
      rw [hclosed] at hclosing
      cases hclosing

end MachineState

/-- Every file of a list after those known before was appended by a declaration that the machine
executed in a state and at a place it came to, knowing the files listed before it. The declaration
was accepted, or its end was refused, something ended there, and its file is the last. -/
structure Accounted (parameters : Parameters) (made : MachineState → Cursor → Prop) (ended : Prop)
    (known files : List FileEntry) : Prop where
  extends_known : known <+: files
  declared : ∀ i entry, known.length ≤ i → files[i]? = some entry →
    ∃ state place, made state place ∧ state.files.files = files.take i ∧
      ∃ declaration : Declaration parameters state.files place, declaration.entry = entry ∧
        ((∃ last, declaration.closing = .ok ((), last)) ∨
          (∃ e, declaration.closing = .error e) ∧ ended ∧ files.length = i + 1)

namespace Accounted

variable {parameters : Parameters} {made more : MachineState → Cursor → Prop} {ended last : Prop}
  {known mid files : List FileEntry}

theorem refl (known : List FileEntry) : Accounted parameters made ended known known := by
  refine ⟨List.prefix_rfl, fun i entry hle hentry => ?_⟩
  rw [List.getElem?_eq_none hle] at hentry
  cases hentry

theorem mono (h : Accounted parameters made ended known files)
    (hmade : ∀ state place, made state place → more state place) (hended : ended → last) :
    Accounted parameters more last known files := by
  refine ⟨h.extends_known, fun i entry hle hentry => ?_⟩
  obtain ⟨state, place, hplace, hstate, declaration, hdeclared, hclosing⟩ :=
    h.declared i entry hle hentry
  exact ⟨state, place, hmade _ _ hplace, hstate, declaration, hdeclared,
    hclosing.imp_right fun ⟨he, hstop, hlast⟩ => ⟨he, hended hstop, hlast⟩⟩

/-- Nothing ended in between, so no declaration before the last was refused. -/
theorem trans (hfirst : Accounted parameters made False known mid)
    (hrest : Accounted parameters made ended mid files) :
    Accounted parameters made ended known files := by
  refine ⟨hfirst.extends_known.trans hrest.extends_known, fun i entry hle hentry => ?_⟩
  rcases Nat.lt_or_ge i mid.length with hlt | hge
  · obtain ⟨later, rfl⟩ := hrest.extends_known
    rw [List.getElem?_append_left hlt] at hentry
    obtain ⟨state, place, hplace, hstate, declaration, hdeclared, hclosing⟩ :=
      hfirst.declared i entry hle hentry
    refine ⟨state, place, hplace, ?_, declaration, hdeclared, .inl ?_⟩
    · rw [hstate, List.take_append_of_le_length hlt.le]
    · exact hclosing.resolve_right fun ⟨_, hstop, _⟩ => hstop
  · exact hrest.declared i entry hge hentry

end Accounted

namespace MachineState

/-- The states and places in which a run makes its steps. -/
inductive Visits (parameters : Parameters) : MachineState → Cursor → MachineState → Cursor → Prop
  | here {state : MachineState} {c : Cursor} (hend : c.atEnd = false) :
    Visits parameters state c state c
  | later {state next final : MachineState} {c last place : Cursor} (hend : c.atEnd = false)
    (hstep : step parameters state c = (next, .ok (none, last)))
    (hlater : Visits parameters next last final place) :
    Visits parameters state c final place

theorem Visits.le {parameters : Parameters} {state final : MachineState} {c place : Cursor}
    (h : Visits parameters state c final place) : c ≤ place := by
  induction h with
  | here hend => exact Cursor.le_refl _
  | later hend hstep hlater ih => exact Cursor.le_trans (step_lt _ _ hstep).1 ih

variable (parameters : Parameters)

theorem step_accounted (state : MachineState) {c : Cursor} (hend : c.atEnd = false) :
    Accounted parameters (Visits parameters state c)
      (∃ e, (step parameters state c).2 = .error e) state.files.files
      (step parameters state c).1.files.files := by
  rcases step_files parameters state c with hsame | ⟨⟨declaration⟩⟩
  · rw [hsame]
    exact .refl _
  · have hstep := declaration.step_eq state.registers
    rw [show (⟨state.registers, state.files⟩ : MachineState) = state from rfl] at hstep
    rw [hstep]
    refine ⟨List.prefix_append _ _, fun i entry hle hentry => ?_⟩
    rw [declaration.taken_files] at hentry ⊢
    obtain rfl : i = state.files.files.length := by
      have hlt := (List.getElem?_eq_some_iff.mp hentry).1
      simp only [List.length_append, List.length_singleton] at hlt
      omega
    simp only [List.getElem?_concat_length, Option.some.injEq] at hentry
    refine ⟨state, c, .here hend, by simp, declaration, hentry, ?_⟩
    rcases hclosing : declaration.closing with e | ⟨_, last⟩
    · exact .inr ⟨⟨e, rfl⟩, ⟨e, rfl⟩, by simp⟩
    · exact .inl ⟨last, rfl⟩

/-- What a run adds was declared by its steps. -/
theorem run_accounted (state : MachineState) (c : Cursor) :
    Accounted parameters (Visits parameters state c)
      (∃ e, (run parameters state c).2 = .error e) state.files.files
      (run parameters state c).1.files.files := by
  fun_induction run parameters state c with
  | case1 state c hend => exact .refl _
  | case2 state c hend next e hstep =>
    have hfirst := step_accounted parameters state (by simpa using hend)
    rwa [hstep] at hfirst
  | case3 state c hend next row last hstep =>
    have hfirst := step_accounted parameters state (by simpa using hend)
    rwa [hstep] at hfirst
  | case4 state c hend next last hstep hlt ih =>
    have hplace : c.atEnd = false := by simpa using hend
    have hfirst := step_accounted parameters state hplace
    rw [hstep] at hfirst
    refine (hfirst.mono (fun _ _ => id) (by simp)).trans (ih.mono ?_ id)
    exact fun _ _ => .later hplace hstep

end MachineState
end DwarfLines
