import Mathlib
import DwarfLines.Proofs.Table.LeftFiles
import DwarfLines.Proofs.Table.LongForms

/-!
# Padding behind extended instructions

The length of an extended instruction decides where the next one begins, whatever its operands take.
So bytes can be put behind the operands, of any value and number, once the length counts them: the
rows of the program stay, and it ends as before. Its files stay, too, as long as a length near the
end of all offsets does not come to lead out of them.
-/

namespace DwarfLines

namespace NumberWriting

variable (writing : NumberWriting) (padding : ℕ → List UInt8)

/-- The bytes of an instruction, with padding behind it that its length counts if the instruction is
extended. The padding may be another one at every place of the program. -/
def padded (place : ℕ) (_ : Instruction) : List UInt8 → List UInt8
  | [] => []
  | first :: more =>
    if first = 0 then
      match Reader.uleb128 (Cursor.start more) with
      | .ok (length, behind) =>
        0 :: writing.unsigned place (length + UInt64.ofNat (padding place).length) ++
          (behind.rest ++ padding place)
      | .error _ => first :: more
    else
      first :: more

variable {parameters : Parameters} {instruction : Instruction}

theorem padded_of_ne {first : UInt8} (h : first ≠ 0) (place : ℕ) (more : List UInt8) :
    writing.padded padding place instruction (first :: more) = first :: more := if_neg h

theorem padded_of_extended (extended : ExtendedBytes parameters instruction) (place : ℕ)
    (behind : List UInt8) :
    writing.padded padding place instruction (extended.front ++ behind) =
      0 :: writing.unsigned place (extended.length + UInt64.ofNat (padding place).length) ++
        extended.opcode :: extended.operands ++ (behind ++ padding place) := by
  have hlength := extended.reads_length 0 (extended.opcode :: extended.operands ++ behind)
  have hbytes : extended.front ++ behind =
      0 :: (extended.lengthBytes ++ (extended.opcode :: extended.operands ++ behind)) := by
    simp [ExtendedBytes.front]
  rw [hbytes, padded, if_pos rfl, Cursor.start, hlength]
  simp

theorem faithful_padded (hbase : parameters.opcodeBase ≠ 0) :
    MachineState.Faithful parameters (writing.padded padding) := by
  refine MachineState.faithful_of_readsAs
    fun decoded c middle last taken hread hclose hpasses offset hfit => ?_
  rcases Decoded.exists_bytes_of_read hread with
    ⟨first, operand, hne, hnone, hfront, -⟩ | ⟨extended, hfront, hdecoded⟩
  · obtain ⟨bytes, hbytes, hreads⟩ := Decoded.exists_readsAs hread hclose
    obtain rfl := hpasses.unique hbytes
    obtain ⟨_, _⟩ := decoded
    cases hnone
    cases hclose
    obtain rfl := hpasses.unique hfront
    rw [padded_of_ne _ _ (hne hbase)] at hfit ⊢
    exact hreads offset hfit
  · rw [hdecoded] at hclose
    obtain ⟨behind, hbytes, hlength⟩ := Decoded.exists_padding_of_close extended hfront hclose
    obtain rfl := hpasses.unique hbytes
    rw [padded_of_extended] at hfit ⊢
    refine Decoded.readsAs_extended_of hbase (writing.reads_unsigned _ _) extended.reads_operands ?_
      hfit
    simp only [List.length_append, List.length_cons] at hfit ⊢
    rw [UInt64.toNat_add, UInt64.toNat_ofNat', hlength]
    omega

end NumberWriting

namespace LineTable

variable {order : ByteOrder} {lines : List UInt8} {offset : ℕ} {context : UnitContext}
  {table : LineTable}

/-- The program of a table, in which every extended instruction that a pass executes is padded. -/
def paddedProgram (table : LineTable) (writing : NumberWriting) (padding : ℕ → List UInt8) :
    List UInt8 :=
  table.rewritten (writing.padded padding)

/-- A unit with any padding behind its extended instructions gives the same rows, and fails if and
only if the unit without it does. The files are the same as well, unless both fail at one
declaration, where one unit has added the file when the declared end is refused, and in the other
one the declared length leads out of all offsets. The lists must end where the program begins or
before, and the unit must still have a length that its format can write and that an offset can
count. -/
theorem rows_of_padding (writing : NumberWriting) (padding : ℕ → List UInt8)
    (hparse : parse order lines offset context = .ok table)
    (hends : table.program.tablesEnd ≤ table.program.header.programOffset)
    (hfits : table.program.header.programOffset + (table.paddedProgram writing padding).length ≤
      table.program.header.format.lengthSize + table.program.header.format.maxLength)
    (hlength : table.program.header.programOffset + (table.paddedProgram writing padding).length <
      2 ^ 64)
    (before after : List UInt8) :
    ∃ padded,
      parse order (before ++ table.program.replaced (table.paddedProgram writing padding) ++ after)
        before.length context = .ok padded ∧
      padded.trace.rows = table.trace.rows ∧
      (padded.trace.fault = none ↔ table.trace.fault = none) ∧
      LeftAlike table.program.header.toParameters table.course padded.course := by
  obtain ⟨haccepted, -⟩ := accepted_of_parse hparse
  have hfaithful := writing.faithful_padded padding haccepted.opcodeBase
  obtain ⟨padded, hpadded, hfront, hprogram⟩ :=
    parse_rewritten hparse hends hfits hlength before after
  have hsame : List.Forall₂ (· = ·) table.files.files padded.files.files :=
    hfront.files ▸ List.forall₂_same.mpr fun _ _ => rfl
  obtain ⟨hstart, hregisters⟩ := foundAnew_start hparse hpadded hfront.parameters
    (congrArg _ hfront.files) (congrArg _ hfront.files) hsame hprogram
  have halike := hstart.trace hfaithful fun _ => rfl
  have hleaves := hstart.trace_leaves hfaithful
  rw [← hregisters] at halike hleaves
  exact ⟨padded, hpadded, halike.rows_eq, halike.fault, hleaves⟩

/-- Padding behind the declaration of a file, which looks like the end of a sequence, and behind the
end of the sequence. -/
theorem rows_of_padding_late_file :
    ∃ table padded, parse .little
        [26, 0, 0, 0, 2, 0, 8, 0, 0, 0, 1, 1, 0, 1, 2, 0, 0, 0,
          0, 6, 3, 97, 0, 0, 0, 0, 1, 0, 1, 1] 0 { compDir := "/", name := "u" } = .ok table ∧
      table.paddedProgram .shortest (fun _ => [0, 1, 1]) =
        [0, 9, 3, 97, 0, 0, 0, 0, 0, 1, 1, 1, 0, 4, 1, 0, 1, 1] ∧
      parse .little
        ([7] ++ table.program.replaced (table.paddedProgram .shortest (fun _ => [0, 1, 1])) ++ []) 1
        { compDir := "/", name := "u" } = .ok padded ∧
      padded.trace.rows = table.trace.rows ∧ padded.trace.fault = none ∧
      padded.trace.files.files =
        [{ path := "/u", directoryIndex := 0 }, { path := "/a", directoryIndex := 0 }] := by
  have hknown : (parse .little
      [26, 0, 0, 0, 2, 0, 8, 0, 0, 0, 1, 1, 0, 1, 2, 0, 0, 0,
        0, 6, 3, 97, 0, 0, 0, 0, 1, 0, 1, 1] 0 { compDir := "/", name := "u" }).map
        (fun table => (
          (table.program.tablesEnd, table.program.header.programOffset,
            table.program.header.format),
          table.paddedProgram .shortest (fun _ => [0, 1, 1]), table.trace.fault,
          table.trace.files.files)) =
      .ok ((18, 18, .dwarf32), [0, 9, 3, 97, 0, 0, 0, 0, 0, 1, 1, 1, 0, 4, 1, 0, 1, 1], none,
        [{ path := "/u", directoryIndex := 0 }, { path := "/a", directoryIndex := 0 }]) := by
    decide +kernel
  obtain ⟨table, hparse, hknown⟩ := exists_of_map_eq_ok hknown
  simp only [Prod.mk.injEq] at hknown
  obtain ⟨⟨htables, hprogram, hformat⟩, hbytes, hfault, hfiles⟩ := hknown
  obtain ⟨padded, hpadded, hrows, hends, hleft⟩ :=
    rows_of_padding .shortest (fun _ => [0, 1, 1]) hparse (by omega)
      (by rw [hprogram, hformat, hbytes]; decide) (by rw [hprogram, hbytes]; decide) [7] []
  have hplain := hends.mpr hfault
  refine ⟨table, padded, hparse, hbytes, hpadded, hrows, hplain, ?_⟩
  cases hleft with
  | same hsame => exact hsame.trans hfiles
  | lost entry hlost hrefused => exact absurd hfault hrefused.failed
  | gained entry hgained hrefused => exact absurd hplain hrefused.failed

/-- A discriminator, and a declaration that ends at the last offset that there is. It is refused
because the unit ends before, when its file is there. With a byte behind the discriminator the
length is refused, and the file is not there. -/
theorem files_of_padding_differ :
    ∃ table padded, parse .little
        [35, 0, 0, 0, 2, 0, 8, 0, 0, 0, 1, 1, 0, 1, 2, 0, 0, 0, 0, 2, 4, 1,
          0, 222, 255, 255, 255, 255, 255, 255, 255, 255, 1, 3, 97, 0, 0, 0, 0] 0
        { compDir := "/", name := "u" } = .ok table ∧
      table.program.tablesEnd ≤ table.program.header.programOffset ∧
      table.program.replaced (table.paddedProgram .shortest (fun _ => [7])) =
        [36, 0, 0, 0, 2, 0, 8, 0, 0, 0, 1, 1, 0, 1, 2, 0, 0, 0, 0, 3, 4, 1, 7,
          0, 222, 255, 255, 255, 255, 255, 255, 255, 255, 1, 3, 97, 0, 0, 0, 0] ∧
      parse .little (table.program.replaced (table.paddedProgram .shortest (fun _ => [7]))) 0
        { compDir := "/", name := "u" } = .ok padded ∧
      table.trace.files.files =
        [{ path := "/u", directoryIndex := 0 }, { path := "/a", directoryIndex := 0 }] ∧
      padded.trace.files.files = [{ path := "/u", directoryIndex := 0 }] := by
  have hknown : (parse .little
      [35, 0, 0, 0, 2, 0, 8, 0, 0, 0, 1, 1, 0, 1, 2, 0, 0, 0, 0, 2, 4, 1,
        0, 222, 255, 255, 255, 255, 255, 255, 255, 255, 1, 3, 97, 0, 0, 0, 0] 0
      { compDir := "/", name := "u" }).map (fun table => decide (
        table.program.tablesEnd ≤ table.program.header.programOffset ∧
        table.program.replaced (table.paddedProgram .shortest (fun _ => [7])) =
          [36, 0, 0, 0, 2, 0, 8, 0, 0, 0, 1, 1, 0, 1, 2, 0, 0, 0, 0, 3, 4, 1, 7,
            0, 222, 255, 255, 255, 255, 255, 255, 255, 255, 1, 3, 97, 0, 0, 0, 0] ∧
        table.trace.files.files =
          [{ path := "/u", directoryIndex := 0 }, { path := "/a", directoryIndex := 0 }])) =
      .ok true := by
    decide +kernel
  have hpadded : (parse .little
      [36, 0, 0, 0, 2, 0, 8, 0, 0, 0, 1, 1, 0, 1, 2, 0, 0, 0, 0, 3, 4, 1, 7,
        0, 222, 255, 255, 255, 255, 255, 255, 255, 255, 1, 3, 97, 0, 0, 0, 0] 0
      { compDir := "/", name := "u" }).map (fun padded => padded.trace.files.files) =
      .ok [{ path := "/u", directoryIndex := 0 }] := by
    decide +kernel
  obtain ⟨table, hparse, hfacts⟩ := exists_of_map_eq_ok hknown
  obtain ⟨hends, hbytes, hfiles⟩ := of_decide_eq_true hfacts
  obtain ⟨padded, hagain, hfewer⟩ := exists_of_map_eq_ok hpadded
  exact ⟨table, padded, hparse, hends, hbytes, hbytes ▸ hagain, hfiles, hfewer⟩

end LineTable
end DwarfLines
