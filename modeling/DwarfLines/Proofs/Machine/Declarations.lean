import Mathlib
import DwarfLines.Files.LegacyLists
import DwarfLines.Proofs.Machine.SharedFiles

/-!
# The declarations of a program

Which instructions stand in a program is decided by its bytes alone. A run that does not fail goes
through them one after another, and adds to the file table what those it passes declare, each
once and in order.
-/

namespace DwarfLines

namespace Instruction

variable (parameters : Parameters)

def readWhole : Reader LineError Instruction := do
  let decoded ← Decoded.read parameters
  decoded.close
  return decoded.instruction

theorem consuming_readWhole : (readWhole parameters).Consuming :=
  (Decoded.consuming_read parameters).bind fun decoded =>
    (Decoded.forward_close decoded).bind fun _ => Reader.forward_pure _

def listFrom (c : Cursor) : List Instruction :=
  match h : readWhole parameters c with
  | .error _ => []
  | .ok (instruction, last) =>
    have := Cursor.length_lt (consuming_readWhole parameters h)
    instruction :: listFrom last
termination_by c.rest.length

variable {parameters}

theorem listFrom_of_ok {c last : Cursor} {instruction : Instruction}
    (h : readWhole parameters c = .ok (instruction, last)) :
    listFrom parameters c = instruction :: listFrom parameters last := by
  rw [listFrom]
  split <;> simp_all

theorem listFrom_of_atEnd {c : Cursor} (h : c.atEnd = true) : listFrom parameters c = [] := by
  obtain ⟨offset, rest⟩ := c
  obtain rfl : rest = [] := List.isEmpty_iff.mp h
  rw [listFrom]
  rfl

variable (parameters) in
def declarations (instructions : List Instruction) : List FileRecord :=
  instructions.filterMap (declared? parameters)

@[simp]
theorem declarations_nil : declarations parameters [] = [] := rfl

theorem declarations_cons (instruction : Instruction) (instructions : List Instruction) :
    declarations parameters (instruction :: instructions) =
      (instruction.declared? parameters).toList ++ declarations parameters instructions := by
  unfold declarations
  rw [List.filterMap_cons]
  cases instruction.declared? parameters <;> rfl

theorem declarations_append (first second : List Instruction) :
    declarations parameters (first ++ second) =
      declarations parameters first ++ declarations parameters second :=
  List.filterMap_append

end Instruction

namespace FileTable

/-- A file table that what some records declare was added to. -/
structure GrownBy (grown table : FileTable) (records : List FileRecord) : Prop where
  compDir : grown.compDir = table.compDir
  directories : grown.directories = table.directories
  files : ∃ entries, table.legacyFiles records = .ok entries ∧
    grown.files = table.files ++ entries

theorem legacyFiles_congr {table other : FileTable} (hcomp : table.compDir = other.compDir)
    (hdirs : table.directories = other.directories) (records : List FileRecord) :
    table.legacyFiles records = other.legacyFiles records :=
  congrArg (fun f => records.mapM f) (funext fun record => entryOf_congr hcomp hdirs record)

theorem Agrees.grownBy {grown table : FileTable} (h : grown.Agrees table) :
    grown.GrownBy table [] :=
  ⟨h.compDir, h.directories, [], rfl, by simp [h.files]⟩

theorem GrownBy.append {first second table : FileTable} {records more : List FileRecord}
    (hfirst : first.GrownBy table records) (hsecond : second.GrownBy first more) :
    second.GrownBy table (records ++ more) := by
  obtain ⟨entries, hentries, hfiles⟩ := hfirst.files
  obtain ⟨late, hlate, hall⟩ := hsecond.files
  rw [legacyFiles_congr hfirst.compDir hfirst.directories] at hlate
  refine ⟨hsecond.compDir.trans hfirst.compDir, hsecond.directories.trans hfirst.directories,
    entries ++ late, ?_, ?_⟩
  · unfold legacyFiles at hentries hlate ⊢
    rw [List.mapM_append, hentries, hlate]
    rfl
  · rw [hall, hfiles, List.append_assoc]

theorem GrownBy.agrees_trans {first second table : FileTable} {records : List FileRecord}
    (hfirst : first.GrownBy table records) (h : second.Agrees first) :
    second.GrownBy table records := by
  simpa using hfirst.append h.grownBy

/-- A declaration that was not taken before adds its entry. -/
theorem grownBy_of_define {table next : FileTable} {start finish : ℕ} {record : FileRecord}
    (hle : table.definedThrough ≤ start) (h : table.define start finish record = .ok next) :
    next.GrownBy table [record] ∧ next.definedThrough = finish := by
  rcases define_eq_ok h with ⟨hlt, -⟩ | ⟨-, entry, hentry, rfl⟩
  · exact absurd hlt (Nat.not_lt.mpr hle)
  · refine ⟨⟨rfl, rfl, [entry], ?_, rfl⟩, rfl⟩
    unfold legacyFiles
    rw [List.mapM_cons, hentry]
    rfl

end FileTable

namespace MachineState

variable {parameters : Parameters} {state next : MachineState} {c last : Cursor}

theorem exists_readWhole_of_step {row : Option Registers}
    (h : step parameters state c = (next, .ok (row, last))) :
    ∃ instruction finish, Instruction.readWhole parameters c = .ok (instruction, last) ∧
      state.execute parameters c.offset finish instruction = .ok (next, row) := by
  obtain ⟨decoded, operandsEnd, hread, hexecute, hclose⟩ := (step_eq_ok parameters).mp h
  exact ⟨decoded.instruction, operandsEnd.offset,
    Reader.bind_eq_ok.mpr ⟨_, _, hread, Reader.bind_eq_ok.mpr ⟨_, _, hclose, rfl⟩⟩, hexecute⟩

/-- A step adds what the instruction at its place declares. -/
theorem step_declares {row : Option Registers}
    (h : step parameters state c = (next, .ok (row, last)))
    (hle : state.files.definedThrough ≤ c.offset) :
    ∃ instruction, Instruction.readWhole parameters c = .ok (instruction, last) ∧
      next.files.GrownBy state.files (instruction.declared? parameters).toList ∧
      next.files.definedThrough ≤ last.offset := by
  obtain ⟨decoded, operandsEnd, hread, hexecute, hclose⟩ := (step_eq_ok parameters).mp h
  have hstart := (Decoded.consuming_read parameters hread).2
  have hfinish := Cursor.offset_le (Decoded.forward_close _ hclose)
  have hwhole : Instruction.readWhole parameters c = .ok (decoded.instruction, last) :=
    Reader.bind_eq_ok.mpr ⟨_, _, hread, Reader.bind_eq_ok.mpr ⟨_, _, hclose, rfl⟩⟩
  refine ⟨decoded.instruction, hwhole, ?_⟩
  cases hdeclared : decoded.instruction.declared? parameters with
  | none =>
    obtain ⟨effect, heffect⟩ :=
      execute_quiet parameters hdeclared state.registers c.offset operandsEnd.offset
    have hquiet : next.files = state.files := by
      rw [show state = ⟨state.registers, state.files⟩ from rfl, heffect] at hexecute
      cases effect with
      | error e => cases hexecute
      | ok result =>
        cases hexecute
        rfl
    rw [hquiet]
    exact ⟨(FileTable.Agrees.refl _).grownBy, by omega⟩
  | some record =>
    rw [execute_declared parameters hdeclared] at hexecute
    cases hdefine : state.files.define c.offset operandsEnd.offset record with
    | error e => simp [hdefine, Except.map] at hexecute
    | ok more =>
      simp only [hdefine, Except.map, Except.ok.injEq, Prod.mk.injEq] at hexecute
      obtain ⟨rfl, -⟩ := hexecute
      obtain ⟨hgrown, hthrough⟩ := FileTable.grownBy_of_define hle hdefine
      exact ⟨hgrown, hthrough.trans_le hfinish⟩

/-- A run adds what the instructions it passes declare. -/
theorem run_declares {row : Option Registers}
    (h : run parameters state c = (next, .ok (row, last)))
    (hle : state.files.definedThrough ≤ c.offset) :
    ∃ passed, Instruction.listFrom parameters c = passed ++ Instruction.listFrom parameters last ∧
      next.files.GrownBy state.files (Instruction.declarations parameters passed) ∧
      next.files.definedThrough ≤ last.offset := by
  fun_induction run parameters state c with
  | case1 state c hend =>
    cases h
    exact ⟨[], rfl, (FileTable.Agrees.refl _).grownBy, hle⟩
  | case2 state c hend after e hstep => cases h
  | case3 state c hend after shown place hstep =>
    cases h
    obtain ⟨instruction, hread, hgrown, hthrough⟩ := step_declares hstep hle
    refine ⟨[instruction], Instruction.listFrom_of_ok hread, ?_, hthrough⟩
    rwa [Instruction.declarations_cons, Instruction.declarations_nil, List.append_nil]
  | case4 state c hend after place hstep hlt ih =>
    obtain ⟨instruction, hread, hgrown, hthrough⟩ := step_declares hstep hle
    obtain ⟨passed, hlist, hmore, hlast⟩ := ih h hthrough
    refine ⟨instruction :: passed, ?_, ?_, hlast⟩
    · rw [Instruction.listFrom_of_ok hread, hlist, List.cons_append]
    · rw [Instruction.declarations_cons]
      exact hgrown.append hmore

end MachineState
end DwarfLines
