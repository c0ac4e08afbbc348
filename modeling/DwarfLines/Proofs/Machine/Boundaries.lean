import Mathlib
import DwarfLines.Proofs.Files.LegacyReading
import DwarfLines.Proofs.Machine.SharedFiles

/-!
# Where the instructions of a program begin

A step tells two things about the program: whether its instruction gives a row and where the next
one begins, or that it is refused and why. The registers have no part in that. The file table has
one, because a declaration that was taken before is not looked at again, so that a fault of its
record would not be noticed. `MachineState.boundary` leaves both out: it asks a machine that has done
nothing and knows no file. By `outline_step` a machine agrees with it
wherever its file table has not gone past the place, and past it wherever no record is refused.
-/

namespace DwarfLines

namespace FileTable

/-- A record without a name is refused by every file table that has not taken it, and for the same
reason. Any other record is accepted by every file table. -/
theorem define_cases (start finish : ℕ) (record : FileRecord) :
    (∃ e, ∀ table : FileTable, table.definedThrough ≤ start →
      table.define start finish record = .error e) ∨
    ∀ table : FileTable, ∃ more, table.define start finish record = .ok more := by
  by_cases hname : record.name = ""
  · refine .inl ⟨.format .emptyFile, fun table hle => ?_⟩
    rw [define_of_le record hle, entryOf, hname]
    rfl
  · refine .inr fun table => ?_
    rcases Nat.lt_or_ge start table.definedThrough with hlt | hle
    · exact ⟨_, define_of_lt record hlt⟩
    · rw [define_of_le record hle, table.entryOf_eq hname]
      exact ⟨_, rfl⟩

end FileTable

namespace MachineState

variable (parameters : Parameters)

/-- What an answer tells about the program: the error, or whether there is a row and where the next
instruction begins. -/
def outline (answer : Except LineError (Option Registers × Cursor)) :
    Except LineError (Bool × Cursor) :=
  answer.map fun (row, last) => (row.isSome, last)

/-- What the bytes at a place tell about the program, as a machine finds that has done nothing. -/
def boundary (c : Cursor) : Except LineError (Bool × Cursor) :=
  outline (step parameters ⟨.initial parameters.defaultIsStmt, { compDir := "" }⟩ c).2

/-- The registers decide neither whether an instruction can be executed, nor whether it gives a
row, nor what becomes of the files. -/
theorem execute_registers (registers other : Registers) (files : FileTable) (start finish : ℕ)
    (instruction : Instruction) :
    (execute parameters ⟨registers, files⟩ start finish instruction).map
        (fun (next, row) => (next.files, row.isSome)) =
      (execute parameters ⟨other, files⟩ start finish instruction).map
        (fun (next, row) => (next.files, row.isSome)) := by
  cases instruction with
  | special opcode =>
    simp only [execute]
    cases SpecialOpcode.decode? opcode parameters.opcodeBase parameters.lineBase
      parameters.lineRange <;> rfl
  | defineFile record =>
    simp only [execute]
    split_ifs
    · rfl
    · cases files.define start finish record <;> rfl
  | _ => rfl

/-- What the registers are changes only the registers of a row and those of the next state. -/
theorem step_registers (registers other : Registers) (files : FileTable) (c : Cursor) :
    outline (step parameters ⟨registers, files⟩ c).2 =
        outline (step parameters ⟨other, files⟩ c).2 ∧
      (step parameters ⟨registers, files⟩ c).1.files =
        (step parameters ⟨other, files⟩ c).1.files := by
  unfold step
  cases Decoded.read parameters c with
  | error e => exact ⟨rfl, rfl⟩
  | ok p =>
    obtain ⟨decoded, operandsEnd⟩ := p
    have halike := execute_registers parameters registers other files c.offset operandsEnd.offset
      decoded.instruction
    dsimp only
    generalize execute parameters ⟨registers, files⟩ _ _ _ = result at halike ⊢
    generalize execute parameters ⟨other, files⟩ _ _ _ = expected at halike ⊢
    rcases result with e | ⟨next, row⟩ <;> rcases expected with e' | ⟨next', row'⟩ <;>
      simp only [Except.map, Except.error.injEq, Except.ok.injEq, Prod.mk.injEq, reduceCtorEq]
        at halike
    · exact ⟨by rw [halike], rfl⟩
    · dsimp only
      cases decoded.close operandsEnd with
      | error e => exact ⟨rfl, halike.1⟩
      | ok closed => exact ⟨by simp only [outline, Except.map, halike.2], halike.1⟩

/-- A place at which every machine does the same, as far as the program goes. -/
def Settled (c : Cursor) : Prop :=
  ∀ registers files, outline (step parameters ⟨registers, files⟩ c).2 = boundary parameters c

/-- All that a place can be. No declaration stands there, or one that every machine takes, or one
that is refused by every machine which has not taken a later one. -/
theorem place_cases (c : Cursor) :
    (Settled parameters c ∧
      ∀ registers files, (step parameters ⟨registers, files⟩ c).1.files = files) ∨
    (∃ record finish, Settled parameters c ∧
      (∀ row last, boundary parameters c = .ok (row, last) → finish ≤ last.offset) ∧
      ∀ registers (files : FileTable), files.define c.offset finish record =
        .ok (step parameters ⟨registers, files⟩ c).1.files) ∨
    ∃ e, boundary parameters c = .error e ∧ ∀ registers (files : FileTable),
      (step parameters ⟨registers, files⟩ c).1.files = files ∧
        (files.definedThrough ≤ c.offset →
          outline (step parameters ⟨registers, files⟩ c).2 = .error e) := by
  have hregisters (registers : Registers) (files : FileTable) := step_registers parameters registers
    (.initial parameters.defaultIsStmt) files c
  unfold Settled boundary
  rcases step_cases parameters (.initial parameters.defaultIsStmt) c with
    ⟨next, result, hstep⟩ | ⟨record, finish, closing, -, -, hclosing, hstep⟩
  · left
    constructor
    · intro registers files
      rw [(hregisters registers files).1, hstep, hstep]
    · intro registers files
      rw [(hregisters registers files).2, hstep]
  · right
    rcases FileTable.define_cases c.offset finish record with ⟨e, hrefused⟩ | haccepted
    · right
      refine ⟨e, ?_, fun registers files => ?_⟩
      · rw [hstep, hrefused _ (Nat.zero_le _)]
        rfl
      · rw [(hregisters registers files).1, (hregisters registers files).2, hstep]
        rcases Nat.lt_or_ge c.offset files.definedThrough with hlt | hle
        · rw [FileTable.define_of_lt record hlt]
          exact ⟨rfl, fun hle => absurd hlt (Nat.not_lt.mpr hle)⟩
        · rw [hrefused files hle]
          exact ⟨rfl, fun _ => rfl⟩
    · left
      have houtline (files : FileTable) :
          outline (step parameters ⟨.initial parameters.defaultIsStmt, files⟩ c).2 =
            closing.map fun last => (false, last) := by
        obtain ⟨more, hmore⟩ := haccepted files
        rw [hstep, hmore]
        cases closing <;> rfl
      refine ⟨record, finish, fun registers files => ?_, fun row last hlast => ?_,
        fun registers files => ?_⟩
      · rw [(hregisters registers files).1, houtline, houtline]
      · rw [houtline] at hlast
        cases closing with
        | error e => cases hlast
        | ok place =>
          cases hlast
          exact hclosing last rfl
      · obtain ⟨more, hmore⟩ := haccepted files
        rw [(hregisters registers files).2, hstep, hmore]

variable {parameters} {c : Cursor}

/-- Where the bytes tell the next instruction, every machine finds it. -/
theorem settled_of_boundary {row : Bool} {last : Cursor}
    (h : boundary parameters c = .ok (row, last)) : Settled parameters c := by
  rcases place_cases parameters c with ⟨hsettled, -⟩ | ⟨_, _, hsettled, -⟩ | ⟨e, he, -⟩
  · exact hsettled
  · exact hsettled
  · cases he.symm.trans h

/-- A machine that is not past the place finds what the bytes tell, whatever they tell. -/
theorem outline_step {files : FileTable}
    (h : files.definedThrough ≤ c.offset ∨ Settled parameters c) (registers : Registers) :
    outline (step parameters ⟨registers, files⟩ c).2 = boundary parameters c := by
  rcases place_cases parameters c with ⟨hsettled, -⟩ | ⟨_, _, hsettled, -⟩ | ⟨e, he, hrefused⟩
  · exact hsettled registers files
  · exact hsettled registers files
  · rcases h with hle | hsettled
    · rw [he, (hrefused registers files).2 hle]
    · exact hsettled registers files

/-- A step takes declarations up to the end of its instruction at most, and only where every machine
does the same. -/
theorem step_definedThrough (state : MachineState) (c : Cursor) :
    (step parameters state c).1.files.definedThrough = state.files.definedThrough ∨
    Settled parameters c ∧ ∀ row last, boundary parameters c = .ok (row, last) →
      (step parameters state c).1.files.definedThrough ≤ last.offset := by
  obtain ⟨registers, files⟩ := state
  rcases place_cases parameters c with
    ⟨-, hfiles⟩ | ⟨record, finish, hsettled, hfinish, hdefine⟩ | ⟨e, -, hfiles⟩
  · rw [hfiles]
    exact .inl rfl
  · rcases FileTable.define_eq_ok (hdefine registers files) with ⟨-, hsame⟩ | ⟨-, entry, -, hmore⟩
    · rw [hsame]
      exact .inl rfl
    · rw [hmore]
      exact .inr ⟨hsettled, hfinish⟩
  · rw [(hfiles registers files).1]
    exact .inl rfl

theorem error_of_outline {answer : Except LineError (Option Registers × Cursor)} {e : LineError}
    (h : outline answer = .error e) : answer = .error e := by
  rcases answer with e' | ⟨registers, place⟩
  · cases h
    rfl
  · cases h

theorem exists_of_outline {answer : Except LineError (Option Registers × Cursor)} {row : Bool}
    {last : Cursor} (h : outline answer = .ok (row, last)) :
    ∃ registers, answer = .ok (registers, last) ∧ registers.isSome = row := by
  rcases answer with e | ⟨registers, place⟩
  · cases h
  · cases h
    exact ⟨registers, rfl, rfl⟩

variable (parameters) in
/-- The bytes tell that the instruction at one place ends at the other. -/
def Leads (c d : Cursor) : Prop := ∃ row, boundary parameters c = .ok (row, d)

theorem rightUnique_leads : Relator.RightUnique (Leads parameters) := by
  rintro c d e ⟨row, hd⟩ ⟨row', he⟩
  cases hd.symm.trans he
  rfl

theorem Leads.le {c d : Cursor} (h : Leads parameters c d) : c ≤ d := by
  obtain ⟨row, hrow⟩ := h
  obtain ⟨registers, hanswer, -⟩ := exists_of_outline hrow
  exact (step_lt _ _ (Prod.ext rfl hanswer)).1

theorem le_of_leads {c d : Cursor} (h : Relation.ReflTransGen (Leads parameters) c d) : c ≤ d := by
  induction h with
  | refl => exact Cursor.le_refl c
  | tail _ hlast ih => exact Cursor.le_trans ih hlast.le

end MachineState
end DwarfLines
