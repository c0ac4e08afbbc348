import Mathlib
import DwarfLines.Proofs.Bytes.Gives
import DwarfLines.Proofs.Machine.Declarations
import DwarfLines.Proofs.Machine.Decoding
import DwarfLines.Proofs.Machine.Locality

/-!
# Instructions that stand elsewhere

An instruction means the same wherever its bytes stand: the declared end of an extended one moves
with it. So a step or a run does the same when its bytes stand at another offset, with anything
after them, and on a file table to which other files were added before. Only the places where
declarations begin must lie behind what was declared there, and the offsets must stay in a word.
-/

namespace DwarfLines

namespace Decoded

variable {parameters : Parameters} {decoded : Decoded} {c middle last : Cursor}

theorem passes_of_close {declared : DeclaredEnd} (h : decoded.declaredEnd = some declared)
    (hclose : decoded.close middle = .ok ((), last)) :
    ∃ padding, middle.Passes padding last ∧ declared.offset = middle.offset + padding.length := by
  unfold close at hclose
  rw [h] at hclose
  obtain ⟨_, _, hoffset, hclose⟩ := Reader.bind_eq_ok.1 hclose
  cases hoffset
  split_ifs at hclose with hover
  · cases hclose
  · obtain ⟨_, _, hoffset, hseek⟩ := Reader.bind_eq_ok.1 hclose
    cases hoffset
    rw [if_neg hover] at hseek
    obtain ⟨bytes, _, htake, hskip⟩ := Reader.bind_eq_ok.1 (Reader.lift_eq_ok.1 hseek)
    cases hskip
    unfold Reader.take at htake
    split_ifs at htake with hle
    cases htake
    have hlength := List.length_take_of_le hle
    refine ⟨_, ⟨(List.take_append_drop _ _).symm, by rw [hlength]⟩, ?_⟩
    rw [hlength]
    omega

theorem readsAs_extended_of {instruction : Instruction} {opcode : UInt8} {length : UInt64}
    {lengthBytes operands padding : List UInt8} {offset : ℕ} (hbase : parameters.opcodeBase ≠ 0)
    (hlength : ∀ start, Reader.uleb128.Reads start lengthBytes length)
    (hread : ∀ start, (Instruction.readExtended parameters opcode).Reads start operands instruction)
    (hend : length.toNat = 1 + operands.length + padding.length)
    (hfit : offset + (0 :: lengthBytes ++ opcode :: operands ++ padding).length < 2 ^ 64) :
    ReadsAs parameters instruction offset
      (0 :: lengthBytes ++ opcode :: operands ++ padding) := by
  have hfinish : offset + (1 + lengthBytes.length + length.toNat) =
      offset + (0 :: lengthBytes ++ opcode :: operands).length + padding.length := by
    simp only [List.length_append, List.length_cons]
    omega
  have hless : offset + (1 + lengthBytes.length + length.toNat) < 2 ^ 64 := by
    rw [hfinish, Nat.add_assoc, ← List.length_append]
    exact hfit
  have hfront := reads_extended_of parameters hbase hlength hread hless
  refine ⟨_, padding, _, rfl, by simp, rfl, hfront, ?_⟩
  rw [hfinish]
  exact reads_close _ padding

end Decoded

/-- What an extended instruction is read from, up to the end of its operands: its length and its
opcode with operands, which are read alike wherever they stand. -/
structure ExtendedBytes (parameters : Parameters) (instruction : Instruction) where
  opcode : UInt8
  length : UInt64
  lengthBytes : List UInt8
  operands : List UInt8
  opcodeBase : parameters.opcodeBase ≠ 0
  reads_length : ∀ start, Reader.uleb128.Reads start lengthBytes length
  reads_operands : ∀ start,
    (Instruction.readExtended parameters opcode).Reads start operands instruction

namespace ExtendedBytes

variable {parameters : Parameters} {instruction : Instruction}
  (extended : ExtendedBytes parameters instruction)

/-- The bytes up to the end of the operands. -/
def front : List UInt8 := 0 :: extended.lengthBytes ++ extended.opcode :: extended.operands

def endAt (offset : ℕ) : ℕ := offset + (1 + extended.lengthBytes.length + extended.length.toNat)

/-- The instruction as it is found at an offset. -/
def decodedAt (offset : ℕ) : Decoded where
  instruction
  declaredEnd := some { opcode := extended.opcode, offset := extended.endAt offset }

theorem reads_front {offset : ℕ} (h : extended.endAt offset < 2 ^ 64) :
    (Decoded.read parameters).Reads offset extended.front (extended.decodedAt offset) :=
  Decoded.reads_extended_of parameters extended.opcodeBase extended.reads_length
    extended.reads_operands h

end ExtendedBytes

namespace Decoded

variable {parameters : Parameters} {decoded : Decoded} {c middle last : Cursor}

/-- Every instruction is extended, or it is read alike wherever its bytes stand, and then it begins
with an opcode other than zero, unless the special opcodes begin there. -/
theorem exists_bytes_of_read (hread : read parameters c = .ok (decoded, middle)) :
    (∃ opcode operand, (parameters.opcodeBase ≠ 0 → opcode ≠ 0) ∧ decoded.declaredEnd = none ∧
      c.Passes (opcode :: operand) middle ∧
      ∀ offset, (read parameters).Reads offset (opcode :: operand) decoded) ∨
    ∃ extended : ExtendedBytes parameters decoded.instruction,
      c.Passes extended.front middle ∧ decoded = extended.decodedAt c.offset := by
  obtain ⟨opcode, second, hopcode, hread⟩ := Reader.bind_eq_ok.1 hread
  have hfirst := Reader.passes_of_byte (Reader.lift_eq_ok.1 hopcode)
  split_ifs at hread with hspecial hextended
  · cases hread
    refine .inl ⟨opcode, [], fun hbase hzero => ?_, rfl, hfirst, fun offset => ?_⟩
    · subst hzero
      exact hbase (UInt8.le_antisymm hspecial UInt8.zero_le)
    · apply (Reader.reads_byte offset opcode).lift.bind_nil
      simp only [hspecial, if_true]
      exact Reader.reads_pure _ _
  · subst hextended
    have hbase : parameters.opcodeBase ≠ 0 := fun h => hspecial (h ▸ UInt8.le_refl _)
    obtain ⟨length, third, hlength, hread⟩ := Reader.bind_eq_ok.1 hread
    obtain ⟨lengthBytes, hsecond, hreadsLength⟩ :=
      Reader.portable_uleb128 (Reader.lift_eq_ok.1 hlength)
    obtain ⟨_, _, hoffset, hread⟩ := Reader.bind_eq_ok.1 hread
    cases hoffset
    split_ifs at hread with hfits
    · obtain ⟨extended, fourth, hbyte, hread⟩ := Reader.bind_eq_ok.1 hread
      have hthird := Reader.passes_of_byte (Reader.lift_eq_ok.1 hbyte)
      obtain ⟨instruction, fifth, hoperands, hread⟩ := Reader.bind_eq_ok.1 hread
      obtain ⟨operands, hfourth, hreadsOperands⟩ :=
        Instruction.portable_readExtended parameters extended hoperands
      cases hread
      have hthrough := (hfirst.trans hsecond).trans (hthird.trans hfourth)
      have hend : third.offset + length.toNat =
          c.offset + (1 + lengthBytes.length + length.toNat) := by
        rw [(hfirst.trans hsecond).offset, List.length_append, List.length_singleton]
        omega
      refine .inr ⟨⟨extended, length, lengthBytes, operands, hbase, hreadsLength,
        hreadsOperands⟩, hthrough, ?_⟩
      rw [hend]
      rfl
    · cases hread
  · obtain ⟨instruction, third, hoperand, hread⟩ := Reader.bind_eq_ok.1 hread
    obtain ⟨operand, hsecond, hreads⟩ :=
      Instruction.portable_readStandard parameters opcode hoperand
    cases hread
    refine .inl ⟨opcode, operand, fun _ => hextended, rfl, hfirst.trans hsecond, fun offset => ?_⟩
    apply Reader.Reads.byte_bind
    simp only [hspecial, hextended, if_false]
    exact (hreads _).bind_pure _

/-- The length of an extended instruction that ends as declared counts its opcode, its operands and
the bytes behind them. -/
theorem exists_padding_of_close {instruction : Instruction}
    (extended : ExtendedBytes parameters instruction) (hfront : c.Passes extended.front middle)
    (hclose : (extended.decodedAt c.offset).close middle = .ok ((), last)) :
    ∃ padding, c.Passes (extended.front ++ padding) last ∧
      extended.length.toNat = 1 + extended.operands.length + padding.length := by
  obtain ⟨padding, hpadding, hend⟩ := passes_of_close rfl hclose
  refine ⟨padding, hfront.trans hpadding, ?_⟩
  have hmiddle := hfront.offset
  rw [ExtendedBytes.front, List.length_append, List.length_cons, List.length_cons] at hmiddle
  dsimp only [ExtendedBytes.endAt] at hend
  omega

/-- The bytes of an instruction are read as it wherever they stand. -/
theorem exists_readsAs (hread : read parameters c = .ok (decoded, middle))
    (hclose : decoded.close middle = .ok ((), last)) :
    ∃ taken, c.Passes taken last ∧ ∀ offset, offset + taken.length < 2 ^ 64 →
      ReadsAs parameters decoded.instruction offset taken := by
  rcases exists_bytes_of_read hread with
    ⟨opcode, operand, -, hnone, hpasses, hreads⟩ | ⟨extended, hfront, hdecoded⟩
  · obtain ⟨instruction, _⟩ := decoded
    cases hnone
    cases hclose
    exact ⟨_, hpasses, fun offset _ => ⟨_, [], _, (List.append_nil _).symm, by simp, rfl,
      hreads offset, reads_close_none _⟩⟩
  · rw [hdecoded] at hclose
    obtain ⟨padding, hpasses, hlength⟩ := exists_padding_of_close extended hfront hclose
    exact ⟨_, hpasses, fun offset hfit => readsAs_extended_of extended.opcodeBase
      extended.reads_length extended.reads_operands hlength hfit⟩

end Decoded

namespace FileTable

/-- A file table that takes declarations from an offset on as another one does: paths are resolved
alike, and nothing behind the offset was declared. -/
structure TakesAlike (other table : FileTable) (offset : ℕ) : Prop where
  compDir : other.compDir = table.compDir
  directories : other.directories = table.directories
  definedThrough_le : other.definedThrough ≤ offset

/-- A file table to which entries were added. -/
structure GrewBy (next table : FileTable) (entries : List FileEntry) : Prop where
  compDir : next.compDir = table.compDir
  directories : next.directories = table.directories
  files : next.files = table.files ++ entries

theorem GrewBy.refl (table : FileTable) : table.GrewBy table [] :=
  ⟨rfl, rfl, (List.append_nil _).symm⟩

theorem GrewBy.trans {table next last : FileTable} {entries more : List FileEntry}
    (h : next.GrewBy table entries) (h' : last.GrewBy next more) :
    last.GrewBy table (entries ++ more) := by
  constructor
  · rw [h'.compDir, h.compDir]
  · rw [h'.directories, h.directories]
  · rw [h'.files, h.files, List.append_assoc]

theorem TakesAlike.grow {table other next more : FileTable} {entries : List FileEntry}
    {offset later : ℕ} (h : other.TakesAlike table offset) (hnext : next.GrewBy table entries)
    (hmore : more.GrewBy other entries) (hle : more.definedThrough ≤ later) :
    more.TakesAlike next later := by
  constructor
  · rw [hmore.compDir, h.compDir, hnext.compDir]
  · rw [hmore.directories, h.directories, hnext.directories]
  · exact hle

/-- A file table on which a pass at an offset goes on as on another one, though perhaps with other
files: declarations are taken alike, and no file is missing. -/
structure Serves (other table : FileTable) (offset : ℕ) : Prop
    extends other.TakesAlike table offset where
  length_le : table.files.length ≤ other.files.length

theorem Covers.serves {table other : FileTable} (h : other.Covers table) {offset : ℕ}
    (hle : other.definedThrough ≤ offset) : other.Serves table offset :=
  ⟨⟨h.compDir, h.directories, hle⟩, h.files.length_le⟩

theorem Serves.grow {table other next more : FileTable} {entries : List FileEntry}
    {offset later : ℕ} (h : other.Serves table offset) (hnext : next.GrewBy table entries)
    (hmore : more.GrewBy other entries) (hle : more.definedThrough ≤ later) :
    more.Serves next later := by
  refine ⟨h.toTakesAlike.grow hnext hmore hle, ?_⟩
  rw [hnext.files, hmore.files, List.length_append, List.length_append]
  exact Nat.add_le_add_right h.length_le _

theorem Serves.of_covers {table other known : FileTable} {offset : ℕ}
    (h : other.Serves table offset) (hcovers : table.Covers known) : other.Serves known offset :=
  ⟨⟨h.compDir.trans hcovers.compDir, h.directories.trans hcovers.directories,
    h.definedThrough_le⟩, hcovers.files.length_le.trans h.length_le⟩

theorem Serves.of_agrees {table other more : FileTable} {offset : ℕ}
    (h : other.Serves table offset) (hmore : more.Agrees other) : more.Serves table offset :=
  ⟨⟨hmore.compDir.trans h.compDir, hmore.directories.trans h.directories,
    hmore.definedThrough ▸ h.definedThrough_le⟩, hmore.files ▸ h.length_le⟩

theorem Serves.exists_file? {table other : FileTable} {offset : ℕ} (h : other.Serves table offset)
    {index : UInt64} {file : FileEntry} (hfile : table.file? index = some file) :
    ∃ known, other.file? index = some known := by
  obtain ⟨hlt, -⟩ := List.getElem?_eq_some_iff.mp hfile
  exact ⟨_, List.getElem?_eq_getElem (hlt.trans_le h.length_le)⟩

end FileTable

namespace MachineState

variable {parameters : Parameters} {registers : Registers} {own : FileTable} {next : MachineState}
  {c last : Cursor}

/-- An instruction executed at another place, on a table that takes declarations alike. -/
theorem execute_elsewhere {instruction : Instruction} {row : Option Registers}
    {start finish : ℕ}
    (h : execute parameters ⟨registers, own⟩ start finish instruction = .ok (next, row))
    (hown : own.definedThrough ≤ start) :
    ∃ entries, next.files.GrewBy own entries ∧ ∀ other place placeEnd,
      other.TakesAlike own place → place < placeEnd →
      ∃ more, more.GrewBy other entries ∧ more.definedThrough ≤ placeEnd ∧
        execute parameters ⟨registers, other⟩ place placeEnd instruction =
          .ok (⟨next.registers, more⟩, row) := by
  cases hdeclared : instruction.declared? parameters with
  | none =>
    -- The effect depends on the offsets only where something is declared, so not here.
    have hoffsets (place placeEnd : ℕ) :
        execute parameters ⟨registers, own⟩ start finish instruction =
          execute parameters ⟨registers, own⟩ place placeEnd instruction := by
      cases instruction with
      | defineFile record =>
        simp only [execute, if_pos (Instruction.le_version_of_quiet hdeclared)]
      | _ => rfl
    have hfiles : next.files = own := by
      obtain ⟨effect, heffect⟩ := execute_quiet parameters hdeclared registers start finish
      rw [heffect] at h
      obtain ⟨result, -, hresult⟩ := exists_of_map_eq_ok h
      exact congrArg (·.1.files) hresult.symm
    refine ⟨[], hfiles ▸ .refl _, fun other place placeEnd hother hlt => ?_⟩
    obtain ⟨effect, heffect⟩ := execute_quiet parameters hdeclared registers place placeEnd
    rw [hoffsets place placeEnd, heffect] at h
    obtain ⟨result, rfl, hresult⟩ := exists_of_map_eq_ok h
    cases hresult
    exact ⟨other, .refl _, hother.definedThrough_le.trans hlt.le, heffect other⟩
  | some record =>
    rw [execute_declared parameters hdeclared, FileTable.define_of_le record hown] at h
    cases hentry : own.entryOf record with
    | error e => simp [hentry, Except.map] at h
    | ok entry =>
      rw [hentry] at h
      cases h
      refine ⟨[entry], ⟨rfl, rfl, rfl⟩, fun other place placeEnd hother hlt => ?_⟩
      rw [execute_declared parameters hdeclared,
        FileTable.define_of_le record hother.definedThrough_le,
        FileTable.entryOf_congr hother.compDir hother.directories, hentry]
      exact ⟨{ other.append entry with definedThrough := placeEnd }, ⟨rfl, rfl, rfl⟩, le_rfl, rfl⟩

/-- A step whose bytes stand elsewhere, on a table that takes declarations alike there. -/
theorem step_elsewhere {row : Option Registers}
    (h : step parameters ⟨registers, own⟩ c = (next, .ok (row, last)))
    (hown : own.definedThrough ≤ c.offset) :
    ∃ taken entries, c.Passes taken last ∧ next.files.GrewBy own entries ∧
      ∀ other offset rest, other.TakesAlike own offset → offset + taken.length < 2 ^ 64 →
        ∃ more, more.GrewBy other entries ∧ more.definedThrough ≤ offset + taken.length ∧
          step parameters ⟨registers, other⟩ ⟨offset, taken ++ rest⟩ =
            (⟨next.registers, more⟩, .ok (row, ⟨offset + taken.length, rest⟩)) := by
  obtain ⟨decoded, operandsEnd, hread, hexecute, hclose⟩ := (step_eq_ok parameters).mp h
  obtain ⟨taken, hpasses, hreads⟩ := Decoded.exists_readsAs hread hclose
  obtain ⟨entries, hgrew, hthere⟩ := execute_elsewhere hexecute hown
  refine ⟨taken, entries, hpasses, hgrew, fun other offset rest hother hfit => ?_⟩
  obtain ⟨finish, hlt, hle, hstep⟩ :=
    step_of_readsAs (hreads offset hfit) ⟨registers, other⟩ rest
  obtain ⟨more, hmore, hthrough, hexecuted⟩ := hthere other offset finish hother hlt
  rw [hexecuted] at hstep
  exact ⟨more, hmore, hthrough.trans hle, hstep⟩

theorem run_elsewhere {row : Registers}
    (h : run parameters ⟨registers, own⟩ c = (next, .ok (some row, last)))
    (hown : own.definedThrough ≤ c.offset) :
    ∃ taken entries, c.Passes taken last ∧ next.files.GrewBy own entries ∧
      ∀ other offset rest, other.TakesAlike own offset → offset + taken.length < 2 ^ 64 →
        ∃ more, more.GrewBy other entries ∧ more.definedThrough ≤ offset + taken.length ∧
          run parameters ⟨registers, other⟩ ⟨offset, taken ++ rest⟩ =
            (⟨next.registers, more⟩, .ok (some row, ⟨offset + taken.length, rest⟩)) := by
  generalize hstate : (⟨registers, own⟩ : MachineState) = state at h
  fun_induction run parameters state c generalizing registers own with
  | case1 state c hend => cases h
  | case2 state c hend after e hstep => cases h
  | case3 state c hend after shown place hstep =>
    subst hstate
    cases h
    obtain ⟨taken, entries, hpasses, hgrew, hthere⟩ := step_elsewhere hstep hown
    refine ⟨taken, entries, hpasses, hgrew, fun other offset rest hother hfit => ?_⟩
    obtain ⟨more, hmore, hthrough, hstep⟩ := hthere other offset rest hother hfit
    exact ⟨more, hmore, hthrough, run_of_row (not_atEnd_of_step hstep) hstep⟩
  | case4 state c hend after place hstep hlt ih =>
    subst hstate
    obtain ⟨first, entries, hfirst, hgrew, hthere⟩ := step_elsewhere hstep hown
    obtain ⟨-, -, -, hafter⟩ := step_declares hstep hown
    obtain ⟨second, later, hsecond, hgrewMore, hrun⟩ := ih hafter rfl h
    refine ⟨first ++ second, entries ++ later, hfirst.trans hsecond, hgrew.trans hgrewMore,
      fun other offset rest hother hfit => ?_⟩
    rw [List.length_append, ← Nat.add_assoc] at hfit ⊢
    obtain ⟨between, hbetween, hthrough, hstep⟩ :=
      hthere other offset (second ++ rest) hother (Nat.lt_of_le_of_lt (Nat.le_add_right _ _) hfit)
    obtain ⟨more, hmore, hmoreThrough, hrest⟩ :=
      hrun between _ rest (hother.grow hgrew hbetween hthrough) hfit
    refine ⟨more, hbetween.trans hmore, hmoreThrough, ?_⟩
    rw [List.append_assoc, run_of_silent (not_atEnd_of_step hstep) hstep]
    exact hrest

end MachineState
end DwarfLines
