import Mathlib
import DwarfLines.Proofs.Header.LegacyUnits
import DwarfLines.Proofs.Table.ReplacedGaps

/-!
# One more record in a file list

Before version 5 a file list ends with a zero byte, in front of which another record can be put.
The unit is then accepted as it was, with its two lengths rewritten, and has one more file.
-/

namespace DwarfLines

namespace Reader

variable {ε α : Type} {item : Reader ε (Option α)} {consuming : item.Consuming}

/-- A list that was read goes up to its end, and whatever is read as a list may stand there in the
place of the end. -/
theorem exists_front_of_untilNone (hitem : item.Local) {c d : Cursor} {found : List α}
    (h : untilNone item consuming c = .ok (found, d)) :
    ∃ front final, c.Passes (front ++ final) d ∧
      item.Reads (c.offset + front.length) final none ∧
      ∀ ⦃more added⦄, Reads (untilNone item consuming) (c.offset + front.length) more added →
        Reads (untilNone item consuming) c.offset (front ++ more) (found ++ added) := by
  fun_induction untilNone item consuming c generalizing found with
  | case1 => cases h
  | case2 c next hnone =>
    cases h
    obtain ⟨final, hpasses, hreads⟩ := hitem hnone
    exact ⟨[], final, hpasses, hreads, fun _ _ hmore => hmore⟩
  | case3 c a next hsome hlt found last hrest ih =>
    cases h
    obtain ⟨first, hfirst, hreads⟩ := hitem hsome
    obtain ⟨front, final, hpasses, hfinal, hthen⟩ := ih hrest
    rw [hfirst.offset] at hfinal hthen
    refine ⟨first ++ front, final, List.append_assoc first front final ▸ hfirst.trans hpasses, ?_,
      fun more added hmore => ?_⟩
    · rw [List.length_append, ← Nat.add_assoc]
      exact hfinal
    · rw [List.length_append, ← Nat.add_assoc] at hmore
      rw [List.append_assoc]
      exact hreads.untilNone_cons (hthen hmore)
  | case4 => cases h

theorem passes_of_terminated_nil {c d : Cursor} (h : terminated c = .ok ([], d)) :
    c.Passes [0] d := by
  obtain ⟨offset, rest⟩ := c
  cases rest with
  | nil => cases h
  | cons b rest =>
    simp only [terminated, terminatedFrom] at h
    split_ifs at h with hzero
    · cases h
      exact hzero ▸ ⟨rfl, rfl⟩
    · generalize terminatedFrom (offset + 1) rest = more at h
      rcases more with e | ⟨text, last⟩ <;> cases h

end Reader

namespace LegacyLists

theorem eq_zero_of_reads_none {offset : ℕ} {bytes : List UInt8}
    (h : fileRecord.Reads offset bytes none) : bytes = [0] := by
  obtain ⟨text, last, htext, hrest⟩ := Reader.bind_eq_ok.1 (h [])
  have hpasses : (⟨offset, bytes ++ []⟩ : Cursor).Passes bytes ⟨offset + bytes.length, []⟩ :=
    ⟨rfl, rfl⟩
  split_ifs at hrest with hempty
  · cases hrest
    obtain rfl : text = [] := List.isEmpty_iff.mp hempty
    exact hpasses.unique (Reader.passes_of_terminated_nil htext)
  · rw [map_eq_pure_bind] at hrest
    obtain ⟨record, place, -, hnone⟩ := Reader.bind_eq_ok.1 hrest
    cases hnone

end LegacyLists

namespace FileTable

theorem legacyFiles_concat {table : FileTable} {records : List FileRecord}
    {entries : List FileEntry} (h : table.legacyFiles records = .ok entries) {record : FileRecord}
    (hname : record.name ≠ "") :
    table.legacyFiles (records ++ [record]) = .ok (entries ++ [table.recordEntry record]) := by
  unfold legacyFiles at h ⊢
  rw [List.mapM_append, h, List.mapM_cons, table.entryOf_eq hname]
  rfl

/-- Lists that were read end with a zero byte. With a record in front of it they are read as the
same lists with one more file. -/
theorem exists_front_of_readLegacy {context : UnitContext} {table : FileTable} {c d : Cursor}
    (h : readLegacy context c = .ok (table, d)) :
    ∃ front, c.Passes (front ++ [0]) d ∧ ∀ ⦃operands record⦄, record.name ≠ "" →
      (∀ offset, LegacyLists.fileRecord.Reads offset operands (some record)) →
      (readLegacy context).Reads c.offset (front ++ (operands ++ [0]))
        { table with files := table.files ++ [table.recordEntry record] } := by
  obtain ⟨compDir, second, hcompDir, h⟩ := Reader.bind_eq_ok.1 h
  obtain ⟨names, third, hnames, h⟩ := Reader.bind_eq_ok.1 h
  obtain ⟨directories, fourth, hdirectories, h⟩ := Reader.bind_eq_ok.1 h
  obtain ⟨unitPath, fifth, hunitPath, h⟩ := Reader.bind_eq_ok.1 h
  obtain ⟨records, sixth, hrecords, h⟩ := Reader.bind_eq_ok.1 h
  obtain ⟨files, seventh, hfiles, h⟩ := Reader.bind_eq_ok.1 h
  cases h
  obtain ⟨hended, rfl⟩ := Reader.lift_except_eq_ok hcompDir
  obtain ⟨hresolved, rfl⟩ := Reader.lift_except_eq_ok hdirectories
  obtain ⟨hunit, rfl⟩ := Reader.lift_except_eq_ok hunitPath
  obtain ⟨hentries, rfl⟩ := Reader.lift_except_eq_ok hfiles
  obtain ⟨first, hfirst, hreads⟩ := LegacyLists.local_directoryNames.lift hnames
  obtain ⟨front, final, hpasses, hfinal, hthen⟩ :=
    Reader.exists_front_of_untilNone LegacyLists.local_fileRecord (Reader.lift_eq_ok.1 hrecords)
  obtain rfl := LegacyLists.eq_zero_of_reads_none hfinal
  refine ⟨first ++ front, List.append_assoc first front [0] ▸ hfirst.trans hpasses,
    fun operands record hname hrecord => ?_⟩
  rw [hfirst.offset] at hthen
  have hall := hthen ((hrecord _).untilNone_cons (LegacyLists.reads_fileRecord_end _).untilNone_nil)
  unfold readLegacy
  rw [hended, List.append_assoc]
  apply (Reader.reads_lift_ok _ _).nil_bind
  apply hreads.bind
  rw [hresolved]
  apply (Reader.reads_lift_ok _ _).nil_bind
  rw [hunit]
  apply (Reader.reads_lift_ok _ _).nil_bind
  apply hall.lift.bind_nil
  rw [legacyFiles_concat hentries hname]
  exact (Reader.reads_lift_ok _ _).bind_pure _

end FileTable

/-- The unit of a program with more bytes in front of the zero byte that ends its file list, both
lengths rewritten. -/
def LineProgram.listed (program : LineProgram) (record : List UInt8) : List UInt8 :=
  let wordSize := program.header.format.wordSize
  program.header.format.frame program.header.order
    ((program.bytes.take (program.countedOffset - wordSize)).drop
        program.header.format.lengthSize ++
      program.header.order.bytes wordSize (program.header.headerLength + record.length) ++
      program.countedFields.dropLast ++ record ++ [0] ++ program.bytes.drop program.tablesEnd)

namespace UnitLayout

variable {layout : UnitLayout} {context : UnitContext} {table : LineTable} {front : List UInt8}

/-- The layout with other lists. -/
def withTables (layout : UnitLayout) (tables : List UInt8) : UnitLayout := { layout with tables }

theorem Writes.drop_tablesEnd (h : layout.Writes context table) :
    table.program.bytes.drop table.program.tablesEnd = layout.gap ++ layout.program := by
  rw [← h.eq_bytes, h.tablesEnd, ← layout.length_lists, bytes_eq_lists, List.drop_left]

theorem Writes.listed_eq (h : layout.Writes context table) (htables : layout.tables = front ++ [0])
    (record : List UInt8) :
    table.program.listed record = (layout.withTables (front ++ (record ++ [0]))).bytes := by
  have hcounted : table.program.header.headerLength = layout.countedBytes.length := by
    rw [h.eq_header]; rfl
  have hfields : table.program.countedFields.dropLast = layout.scalarBytes ++ front := by
    rw [h.countedFields_eq, htables, ← List.append_assoc, List.dropLast_concat]
  have hlength : (layout.withTables (front ++ (record ++ [0]))).countedBytes.length =
      layout.countedBytes.length + record.length := by
    change (layout.scalarBytes ++ (front ++ (record ++ [0])) ++ layout.gap).length = _
    simp [countedBytes, htables]
    omega
  have hbody : (layout.withTables (front ++ (record ++ [0]))).body = layout.versionBytes ++
      layout.order.bytes layout.format.wordSize (layout.countedBytes.length + record.length) ++
      (layout.scalarBytes ++ front) ++ record ++ [0] ++ (layout.gap ++ layout.program) := by
    rw [body_eq, hlength]
    change layout.versionBytes ++ (layout.order.bytes layout.format.wordSize _ ++
      (layout.scalarBytes ++ (front ++ (record ++ [0])) ++ layout.gap) ++ layout.program) = _
    simp only [List.append_assoc]
  rw [LineProgram.listed, h.format_eq, h.order_eq, hcounted, hfields, h.countedOffset_eq,
    h.versionBytes_eq, h.drop_tablesEnd, UnitLayout.bytes, hbody]
  rfl

theorem Writes.length_listed (h : layout.Writes context table)
    (htables : layout.tables = front ++ [0]) (record : List UInt8) :
    (table.program.listed record).length = table.program.size + record.length := by
  have hlength (tables : List UInt8) : (layout.withTables tables).bytes.length =
      layout.countedOffset + (layout.scalarBytes ++ tables ++ layout.gap).length +
        layout.program.length := by
    rw [bytes_eq, List.length_append, List.length_append, length_prologueBytes]
    rfl
  have hsize : table.program.size = (layout.withTables layout.tables).bytes.length :=
    congrArg List.length h.eq_bytes.symm
  rw [h.listed_eq htables, hsize, hlength, hlength, htables]
  simp only [List.length_append]
  omega

/-- Before version 5 the lists of a written unit end with a zero byte, in front of which a record
can stand. -/
theorem Writes.exists_front (h : layout.Writes context table) (hversion : layout.version < 5) :
    ∃ front, layout.tables = front ++ [0] ∧ ∀ ⦃operands record⦄, record.name ≠ "" →
      (∀ offset, LegacyLists.fileRecord.Reads offset operands (some record)) →
      (Header.readLists (layout.prologue context.addressSize) layout.order context).Reads
        layout.tablesOffset (front ++ (operands ++ [0]))
        ([], [], { table.files with
          files := table.files.files ++ [table.files.recordEntry record] }) := by
  have hnot : ¬ (layout.prologue context.addressSize).version = 5 := ne_five_of_lt hversion
  have hread := h.lists []
  rw [Header.readLists, if_neg hnot] at hread
  obtain ⟨files, last, hlegacy, hread⟩ := Reader.bind_eq_ok.1 hread
  obtain ⟨hlists, hlast⟩ := Prod.mk.inj (Except.ok.inj hread)
  obtain rfl : files = table.files := (Prod.mk.inj (Prod.mk.inj hlists).2).2
  obtain ⟨front, hpasses, hthen⟩ := FileTable.exists_front_of_readLegacy hlegacy
  refine ⟨front, ?_, fun operands record hname hrecord => ?_⟩
  · have htables := hpasses.rest
    rwa [hlast, List.append_nil, List.append_nil] at htables
  · exact reads_legacyLists hversion (hthen hname hrecord)

end UnitLayout

namespace LineTable

variable {order : ByteOrder} {lines : List UInt8} {offset : ℕ} {context : UnitContext}
  {table : LineTable} {operands : List UInt8} {record : FileRecord}

/-- A unit before version 5 with one more record in its file list is accepted as it was, with one
more file, if it still has a length that can be written. -/
theorem parse_listed (hparse : parse order lines offset context = .ok table)
    (hversion : table.program.header.version < 5)
    (hends : table.program.tablesEnd ≤ table.program.header.programOffset)
    (hname : record.name ≠ "")
    (hrecord : ∀ offset, LegacyLists.fileRecord.Reads offset operands (some record))
    (hfits : table.program.size + operands.length ≤
      table.program.header.format.lengthSize + table.program.header.format.maxLength)
    (hlength : table.program.size + operands.length < 2 ^ 64) (before after : List UInt8) :
    ∃ other, parse order (before ++ table.program.listed operands ++ after) before.length context =
        .ok other ∧
      other.program.header.toParameters = table.program.header.toParameters ∧
      other.program.size = table.program.size + operands.length ∧
      other.program.bytes.drop other.program.header.programOffset =
        table.program.bytes.drop table.program.header.programOffset ∧
      other.files = { table.files with
        files := table.files.files ++ [table.files.recordEntry record] } := by
  obtain ⟨layout, rfl, hwrites⟩ := exists_writes_of_parse hparse hends
  rw [hwrites.version_eq] at hversion
  obtain ⟨front, htables, hlists⟩ := hwrites.exists_front hversion
  have hwell : (layout.withTables (front ++ (operands ++ [0]))).WellFormed :=
    { hwrites.wellFormed with }
  have hbytes := hwrites.listed_eq htables operands
  have hsize : (layout.withTables (front ++ (operands ++ [0]))).bytes.length =
      table.program.size + operands.length := by
    rw [← hbytes, hwrites.length_listed htables]
  have hbody := DwarfFormat.length_frame layout.format layout.order
    (layout.withTables (front ++ (operands ++ [0]))).body
  change (layout.withTables (front ++ (operands ++ [0]))).bytes.length = _ at hbody
  rw [hwrites.format_eq, ← hsize, hbody] at hfits
  rw [← hsize] at hlength
  have hother := UnitLayout.parse_eq hwell (decide_eq_true (Nat.le_of_add_le_add_left hfits))
    hlength context (hlists hname hrecord) before after
  rw [hbytes]
  refine ⟨_, hother, ?_, hsize, ?_, rfl⟩
  · rw [hwrites.parameters_eq]
    rfl
  · rw [hwrites.drop_programOffset]
    exact (layout.withTables (front ++ (operands ++ [0]))).drop_programOffset

end LineTable
end DwarfLines
