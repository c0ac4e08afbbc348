import Mathlib
import DwarfLines.Proofs.Table.RewrittenPrograms

/-!
# The bytes in front of a program

The header says where the program begins, and nothing between the end of the lists and that place is
read. So these bytes can be any others, fewer or more, once the two lengths in the header are
adjusted: the fields and lists stay, and the program, which has moved, runs as before.
-/

namespace DwarfLines

namespace LineProgram

variable (program : LineProgram)

/-- Where the fields begin that the header's length covers. -/
def countedOffset : ℕ := program.header.programOffset - program.header.headerLength

/-- The fields that the header's length covers, up to the end of the lists. -/
def countedFields : List UInt8 := (program.bytes.take program.tablesEnd).drop program.countedOffset

/-- The unit of a program with other bytes between its lists and its program, both lengths
rewritten. -/
def regapped (gap : List UInt8) : List UInt8 :=
  let wordSize := program.header.format.wordSize
  program.header.format.frame program.header.order
    ((program.bytes.take (program.countedOffset - wordSize)).drop program.header.format.lengthSize ++
      program.header.order.bytes wordSize (program.countedFields.length + gap.length) ++
      program.countedFields ++ gap ++ program.bytes.drop program.header.programOffset)

end LineProgram

namespace UnitLayout

variable {layout : UnitLayout} {context : UnitContext} {table : LineTable}

/-- The layout with other bytes between the lists and the program. -/
def filled (layout : UnitLayout) (gap : List UInt8) : UnitLayout := { layout with gap }

/-- The fields between the unit's length and the header's. -/
def versionBytes (layout : UnitLayout) : List UInt8 :=
  layout.order.bytes 2 layout.version.toNat ++ layout.sizeBytes

theorem length_versionBytes (layout : UnitLayout) :
    layout.format.lengthSize + layout.versionBytes.length =
      layout.countedOffset - layout.format.wordSize := by
  simp [versionBytes, countedOffset, ByteOrder.length_bytes]
  omega

theorem Writes.countedOffset_eq (h : layout.Writes context table) :
    table.program.countedOffset = layout.countedOffset := by
  rw [LineProgram.countedOffset, h.eq_header]
  exact Nat.add_sub_cancel _ _

theorem Writes.countedFields_eq (h : layout.Writes context table) :
    table.program.countedFields = layout.scalarBytes ++ layout.tables := by
  rw [LineProgram.countedFields, h.countedOffset_eq, ← h.eq_bytes, h.tablesEnd,
    ← layout.length_lists, bytes_eq_lists, List.take_left, List.append_assoc,
    ← layout.length_prologueBytes, List.drop_left]

theorem body_eq (layout : UnitLayout) :
    layout.body = layout.versionBytes ++
      (layout.order.bytes layout.format.wordSize layout.countedBytes.length ++
        layout.countedBytes ++ layout.program) := by
  simp [body, versionBytes]

theorem Writes.versionBytes_eq (h : layout.Writes context table) :
    (table.program.bytes.take (layout.countedOffset - layout.format.wordSize)).drop
      layout.format.lengthSize = layout.versionBytes := by
  have hbody : layout.bytes.drop layout.format.lengthSize = layout.body := by
    have hframe := layout.format.drop_frame layout.order layout.body 0
    rwa [Nat.add_zero, List.drop_zero] at hframe
  rw [← h.eq_bytes, List.drop_take, hbody, ← length_versionBytes, Nat.add_sub_cancel_left, body_eq,
    List.take_left]

theorem Writes.regapped_eq (h : layout.Writes context table) (gap : List UInt8) :
    table.program.regapped gap = (layout.filled gap).bytes := by
  rw [LineProgram.regapped, h.format_eq, h.order_eq, h.drop_programOffset, h.countedFields_eq,
    h.countedOffset_eq, h.versionBytes_eq, ← List.length_append]
  have hbody : (layout.filled gap).body = layout.versionBytes ++
      layout.order.bytes layout.format.wordSize (layout.scalarBytes ++ layout.tables ++ gap).length ++
      (layout.scalarBytes ++ layout.tables) ++ gap ++ layout.program := by
    rw [body_eq]
    change layout.versionBytes ++ (layout.order.bytes layout.format.wordSize
      (layout.scalarBytes ++ layout.tables ++ gap).length ++
      (layout.scalarBytes ++ layout.tables ++ gap) ++ layout.program) = _
    simp only [List.append_assoc]
  rw [UnitLayout.bytes, hbody]
  rfl

/-- A written unit with another gap is accepted with the same fields and lists. -/
theorem Writes.parse_regapped (h : layout.Writes context table) {gap : List UInt8}
    (hfits : (table.program.regapped gap).length ≤
      table.program.header.format.lengthSize + table.program.header.format.maxLength)
    (hlength : (table.program.regapped gap).length < 2 ^ 64) (before after : List UInt8) :
    ∃ other, LineTable.parse layout.order (before ++ table.program.regapped gap ++ after)
        before.length context = .ok other ∧
      other.program.header =
        { table.program.header with
          unitLength := (table.program.regapped gap).length - table.program.header.format.lengthSize
          headerLength := table.program.countedFields.length + gap.length
          programOffset := table.program.tablesEnd + gap.length } ∧
      other.files = table.files ∧
      other.program.bytes.drop other.program.header.programOffset =
        table.program.bytes.drop table.program.header.programOffset := by
  have hwell : (layout.filled gap).WellFormed := { h.wellFormed with }
  have hbytes : (layout.filled gap).bytes.length =
      layout.format.lengthSize + (layout.filled gap).body.length :=
    DwarfFormat.length_frame _ _ _
  rw [h.regapped_eq, h.format_eq, hbytes] at hfits
  rw [h.regapped_eq] at hlength
  have hparse := parse_eq hwell (decide_eq_true (Nat.le_of_add_le_add_left hfits)) hlength context
    h.lists before after
  rw [h.regapped_eq, h.format_eq, hbytes, Nat.add_sub_cancel_left, h.countedFields_eq, h.tablesEnd]
  refine ⟨_, hparse, ?_, rfl, ?_⟩
  · have hselector : table.program.header.segmentSelectorSize = layout.foundSelectorSize := by
      rw [h.eq_header]
      rfl
    have hcounts : table.program.header.operandCounts = 0 :: layout.operandCounts := by
      rw [h.eq_header]
      rfl
    have hcounted : (layout.filled gap).countedBytes.length =
        (layout.scalarBytes ++ layout.tables).length + gap.length := List.length_append
    have hoffset : (layout.filled gap).programOffset =
        layout.tablesOffset + layout.tables.length + gap.length := by
      rw [programOffset, hcounted, List.length_append, tablesOffset]
      simp only [Nat.add_assoc]
      rfl
    dsimp only
    rw [h.parameters_eq, hselector, hcounts, h.format_eq, UnitLayout.header, hcounted, hoffset]
    rfl
  · rw [h.drop_programOffset]
    exact (layout.filled gap).drop_programOffset

end UnitLayout

namespace LineTable

variable {order : ByteOrder} {lines : List UInt8} {offset : ℕ} {context : UnitContext}
  {table : LineTable}

/-- With the bytes that stand there a unit stays as it is. -/
theorem regapped_gap (hparse : parse order lines offset context = .ok table)
    (hends : table.program.tablesEnd ≤ table.program.header.programOffset) :
    table.program.regapped ((table.program.bytes.take table.program.header.programOffset).drop
      table.program.tablesEnd) = table.program.bytes := by
  obtain ⟨layout, rfl, hwrites⟩ := exists_writes_of_parse hparse hends
  have hgap : (layout.bytes.take layout.programOffset).drop
      (layout.tablesOffset + layout.tables.length) = layout.gap := by
    have hfront : layout.programOffset = (layout.prologueBytes ++ layout.countedBytes).length := by
      rw [List.length_append, UnitLayout.length_prologueBytes, UnitLayout.programOffset]
    rw [hfront, UnitLayout.bytes_eq, List.take_left, ← layout.length_lists,
      UnitLayout.countedBytes, ← List.append_assoc, ← List.append_assoc, List.drop_left]
  rw [hwrites.regapped_eq, hwrites.programOffset_eq, hwrites.tablesEnd, ← hwrites.eq_bytes, hgap]
  rfl

/-- A unit whose lists end where its program begins or before is accepted with any other bytes in
between, if its lengths can still be written. All that differs in its header are these lengths and
the place of the program, the directories and files are the same, and so are the rows of a pass,
which fails if and only if it failed before. -/
theorem rows_of_replaced_gap (hparse : parse order lines offset context = .ok table)
    (hends : table.program.tablesEnd ≤ table.program.header.programOffset) (gap : List UInt8)
    (hfits : (table.program.regapped gap).length ≤
      table.program.header.format.lengthSize + table.program.header.format.maxLength)
    (hlength : (table.program.regapped gap).length < 2 ^ 64) (before after : List UInt8) :
    ∃ other, parse order (before ++ table.program.regapped gap ++ after) before.length context =
        .ok other ∧
      other.program.header =
        { table.program.header with
          unitLength := (table.program.regapped gap).length - table.program.header.format.lengthSize
          headerLength := table.program.countedFields.length + gap.length
          programOffset := table.program.tablesEnd + gap.length } ∧
      other.files = table.files ∧
      other.trace.rows = table.trace.rows ∧
      (other.trace.fault = none ↔ table.trace.fault = none) := by
  obtain ⟨layout, rfl, hwrites⟩ := exists_writes_of_parse hparse hends
  obtain ⟨other, hother, hheader, hfiles, hprogram⟩ :=
    hwrites.parse_regapped hfits hlength before after
  have halike := trace_alike hparse hother (by rw [hheader])
    (congrArg _ hfiles) (congrArg _ hfiles) (hfiles ▸ List.forall₂_same.mpr fun _ _ => rfl)
    (hprogram.trans table.rewritten_verbatim.symm) MachineState.faithful_verbatim fun _ => rfl
  exact ⟨other, hother, hheader, hfiles, halike.rows_eq, halike.fault⟩

/-- Three bytes in front of a program that declares a file. Were they part of it, they would be an
instruction that nothing is known of. -/
theorem rows_of_replaced_gap_late_file :
    ∃ table other, parse .little
        [26, 0, 0, 0, 2, 0, 8, 0, 0, 0, 1, 1, 0, 1, 2, 0, 0, 0,
          0, 6, 3, 97, 0, 0, 0, 0, 1, 0, 1, 1] 0 { compDir := "/", name := "u" } = .ok table ∧
      table.program.regapped [0, 1, 128] =
        [29, 0, 0, 0, 2, 0, 11, 0, 0, 0, 1, 1, 0, 1, 2, 0, 0, 0, 0, 1, 128,
          0, 6, 3, 97, 0, 0, 0, 0, 1, 0, 1, 1] ∧
      parse .little ([7] ++ table.program.regapped [0, 1, 128] ++ [7]) 1
        { compDir := "/", name := "u" } = .ok other ∧
      other.program.header =
        { table.program.header with unitLength := 29, headerLength := 11, programOffset := 21 } ∧
      other.files = table.files ∧ other.trace.rows = table.trace.rows ∧
      other.trace.fault = none := by
  have hknown : (parse .little
      [26, 0, 0, 0, 2, 0, 8, 0, 0, 0, 1, 1, 0, 1, 2, 0, 0, 0,
        0, 6, 3, 97, 0, 0, 0, 0, 1, 0, 1, 1] 0 { compDir := "/", name := "u" }).map
        (fun table => (
          (table.program.tablesEnd, table.program.header.programOffset,
            table.program.header.format, table.program.countedFields.length),
          table.program.regapped [0, 1, 128], table.trace.fault)) =
      .ok ((18, 18, .dwarf32, 8),
        [29, 0, 0, 0, 2, 0, 11, 0, 0, 0, 1, 1, 0, 1, 2, 0, 0, 0, 0, 1, 128,
          0, 6, 3, 97, 0, 0, 0, 0, 1, 0, 1, 1], none) := by
    decide +kernel
  obtain ⟨table, hparse, hknown⟩ := exists_of_map_eq_ok hknown
  simp only [Prod.mk.injEq] at hknown
  obtain ⟨⟨htables, hprogram, hformat, hcounted⟩, hbytes, hfault⟩ := hknown
  obtain ⟨other, hother, hheader, hfiles, hrows, hends⟩ := rows_of_replaced_gap hparse
    (by omega) [0, 1, 128] (by rw [hbytes, hformat]; decide) (by rw [hbytes]; decide) [7] [7]
  rw [hbytes, htables, hcounted, hformat] at hheader
  exact ⟨table, other, hparse, hbytes, hother, hheader, hfiles, hrows, hends.mpr hfault⟩

end LineTable
end DwarfLines
