import Mathlib
import DwarfLines.Proofs.Files.DescribedReading
import DwarfLines.Proofs.Header.Locality

/-!
# The cells of a record

A record of a described list has a cell for every column, the bytes that the column's reader takes.
What a cell gives its file does not depend on where it stands. Only a digest is remembered by its
place, so what is known of a file is said with the bytes of its digest: then a record says the same
in every unit that has it.
-/

namespace DwarfLines

/-- What a column gives a file. -/
inductive ColumnValue where
  | path (raw : String)
  | directoryIndex (index : UInt64)
  | timestamp (time : UInt64)
  | size (bytes : UInt64)
  | digest
  | nothing
  deriving DecidableEq, Repr

/-- An entry after a column whose value begins at an offset. -/
def ColumnValue.fill (value : ColumnValue) (offset : ℕ) (entry : FileEntry) : FileEntry :=
  match value with
  | path raw => { entry with path := raw }
  | directoryIndex index => { entry with directoryIndex := index }
  | timestamp time => { entry with timestamp := some time }
  | size bytes => { entry with size := some bytes }
  | digest => { entry with md5Offset := some offset }
  | nothing => entry

/-- The bytes of one column of a record, and what they give the file. -/
structure Cell where
  bytes : List UInt8
  value : ColumnValue
  deriving DecidableEq, Repr

/-- A cell holds a value of a column: its bytes are exactly what is read as the value, wherever
they stand. -/
structure EntryColumn.Holds (layout : FormLayout) (column : EntryColumn) (cell : Cell) : Prop where
  reads : ∀ entry offset, (FileTable.readColumn layout entry column).Reads offset cell.bytes
    (cell.value.fill offset entry)
  digest : cell.value = .digest → cell.bytes.length = 16

namespace EntryColumn

variable {layout : FormLayout} {column : EntryColumn}

theorem form_of_digest (h : column.isAllowed = true)
    (htype : ContentType.ofCode? column.contentType = some .md5) :
    column.form = Form.data16.code := by
  simp only [isAllowed, htype, beq_iff_eq] at h
  exact (Form.code_of_ofCode? h).symm

theorem length_of_skip_data16 {c d : Cursor} {bytes : List UInt8}
    (h : layout.skip Form.data16.code c = .ok ((), d)) (hpasses : c.Passes bytes d) :
    bytes.length = 16 := by
  obtain ⟨taken, _, htake, hdone⟩ := Reader.bind_eq_ok.1 (Reader.lift_eq_ok.1 h)
  cases hdone
  have hlength := Reader.length_of_take htake
  unfold Reader.take at htake
  split_ifs at htake
  cases htake
  have hoffset : c.offset + 16 = c.offset + bytes.length := hpasses.offset
  omega

theorem holds_nothing (hskips : ∀ entry, FileTable.readColumn layout entry column =
      (do layout.skip column.form; return entry)) {c d : Cursor} {entry next : FileEntry}
    (h : FileTable.readColumn layout entry column c = .ok (next, d)) :
    ∃ cell, c.Passes cell.bytes d ∧ column.Holds layout cell := by
  rw [hskips] at h
  obtain ⟨_, _, hskip, h⟩ := Reader.bind_eq_ok.1 h
  cases h
  obtain ⟨bytes, hpasses, hreads⟩ := layout.portable_skip _ hskip
  refine ⟨⟨bytes, .nothing⟩, hpasses, ?_, nofun⟩
  intro entry offset
  rw [hskips]
  exact (hreads offset).bind_pure _

theorem holds_path (htype : ContentType.ofCode? column.contentType = some .path)
    {bytes : List UInt8} {raw : String}
    (hreads : ∀ offset, (layout.string column.form).Reads offset bytes raw) :
    column.Holds layout ⟨bytes, .path raw⟩ := by
  refine ⟨?_, nofun⟩
  intro entry offset
  simp only [FileTable.readColumn, htype]
  exact (hreads offset).bind_pure _

theorem exists_holds_of_readColumn (hallowed : column.isAllowed = true) {entry next : FileEntry}
    {c d : Cursor} (h : FileTable.readColumn layout entry column c = .ok (next, d)) :
    ∃ cell, c.Passes cell.bytes d ∧ column.Holds layout cell := by
  have hread := h
  unfold FileTable.readColumn at hread
  cases htype : ContentType.ofCode? column.contentType with
  | none => exact holds_nothing (fun entry => by simp only [FileTable.readColumn, htype]) h
  | some known =>
    rw [htype] at hread
    cases known with
    | path =>
      obtain ⟨raw, _, hraw, hread⟩ := Reader.bind_eq_ok.1 hread
      cases hread
      obtain ⟨bytes, hpasses, hreads⟩ := layout.portable_string _ hraw
      exact ⟨⟨bytes, .path raw⟩, hpasses, holds_path htype hreads⟩
    | directoryIndex =>
      obtain ⟨index, _, hindex, hread⟩ := Reader.bind_eq_ok.1 hread
      cases hread
      obtain ⟨bytes, hpasses, hreads⟩ := layout.portable_unsigned _ hindex
      refine ⟨⟨bytes, .directoryIndex index⟩, hpasses, ?_, nofun⟩
      intro entry offset
      simp only [FileTable.readColumn, htype]
      exact (hreads offset).bind_pure _
    | timestamp =>
      by_cases hblock : column.form = Form.block.code
      · refine holds_nothing (fun entry => ?_) h
        simp only [FileTable.readColumn, htype, if_pos hblock]
      · simp only [if_neg hblock] at hread
        obtain ⟨time, _, htime, hread⟩ := Reader.bind_eq_ok.1 hread
        cases hread
        obtain ⟨bytes, hpasses, hreads⟩ := layout.portable_unsigned _ htime
        refine ⟨⟨bytes, .timestamp time⟩, hpasses, ?_, nofun⟩
        intro entry offset
        simp only [FileTable.readColumn, htype, if_neg hblock]
        exact (hreads offset).bind_pure _
    | size =>
      obtain ⟨size, _, hsize, hread⟩ := Reader.bind_eq_ok.1 hread
      cases hread
      obtain ⟨bytes, hpasses, hreads⟩ := layout.portable_unsigned _ hsize
      refine ⟨⟨bytes, .size size⟩, hpasses, ?_, nofun⟩
      intro entry offset
      simp only [FileTable.readColumn, htype]
      exact (hreads offset).bind_pure _
    | md5 =>
      have hform := form_of_digest hallowed htype
      obtain ⟨place, _, hplace, hread⟩ := Reader.bind_eq_ok.1 hread
      cases hplace
      obtain ⟨_, _, hskip, hread⟩ := Reader.bind_eq_ok.1 hread
      cases hread
      obtain ⟨bytes, hpasses, hreads⟩ := layout.portable_skip _ hskip
      refine ⟨⟨bytes, .digest⟩, hpasses, ?_, fun _ => ?_⟩
      · intro entry offset
        simp only [FileTable.readColumn, htype]
        exact (Reader.reads_offset offset).nil_bind ((hreads offset).bind_pure _)
      · rw [hform] at hskip
        exact length_of_skip_data16 hskip hpasses
    | loUser => exact holds_nothing (fun entry => by simp only [FileTable.readColumn, htype]) h
    | llvmSource => exact holds_nothing (fun entry => by simp only [FileTable.readColumn, htype]) h
    | hiUser => exact holds_nothing (fun entry => by simp only [FileTable.readColumn, htype]) h

end EntryColumn

def recordBytes (record : List Cell) : List UInt8 := record.flatMap (·.bytes)

/-- What some columns say of a file, with the bytes of its digest. -/
structure FileContents where
  path : String := ""
  directoryIndex : UInt64 := 0
  timestamp : Option UInt64 := none
  size : Option UInt64 := none
  digest : Option (List UInt8) := none
  deriving DecidableEq, Repr

namespace FileContents

/-- What one more cell says. -/
def add (contents : FileContents) (cell : Cell) : FileContents :=
  match cell.value with
  | .path raw => { contents with path := raw }
  | .directoryIndex index => { contents with directoryIndex := index }
  | .timestamp time => { contents with timestamp := some time }
  | .size bytes => { contents with size := some bytes }
  | .digest => { contents with digest := some cell.bytes }
  | .nothing => contents

/-- What a record says. -/
def of (record : List Cell) : FileContents := record.foldl add {}

/-- A unit has a digest at an offset. -/
def DigestAt (unit : List UInt8) (offset : ℕ) (digest : List UInt8) : Prop :=
  digest.length = 16 ∧ digest <+: unit.drop offset

/-- An entry of a unit that remembers some contents, its path as it was read. -/
structure KeptIn (contents : FileContents) (unit : List UInt8) (entry : FileEntry) : Prop where
  path : entry.path = contents.path
  directoryIndex : entry.directoryIndex = contents.directoryIndex
  timestamp : entry.timestamp = contents.timestamp
  size : entry.size = contents.size
  digest : Option.Rel (DigestAt unit) entry.md5Offset contents.digest

/-- An entry of a unit that remembers some contents, its path resolved in a table. -/
structure Describes (contents : FileContents) (unit : List UInt8) (table : FileTable)
    (entry : FileEntry) : Prop where
  path : Path.resolveFile (table.directoryAt contents.directoryIndex) contents.path =
    .ok entry.path
  directoryIndex : entry.directoryIndex = contents.directoryIndex
  timestamp : entry.timestamp = contents.timestamp
  size : entry.size = contents.size
  digest : Option.Rel (DigestAt unit) entry.md5Offset contents.digest

variable {layout : FormLayout} {columns : List EntryColumn} {contents : FileContents}
  {unit : List UInt8} {entry : FileEntry} {table : FileTable}

theorem keptIn_nil (unit : List UInt8) :
    ({} : FileContents).KeptIn unit { path := "", directoryIndex := 0 } :=
  ⟨rfl, rfl, rfl, rfl, .none⟩

theorem KeptIn.add (h : contents.KeptIn unit entry) {column : EntryColumn} {cell : Cell}
    (hcell : column.Holds layout cell) {offset : ℕ} (hunit : cell.bytes <+: unit.drop offset) :
    (contents.add cell).KeptIn unit (cell.value.fill offset entry) := by
  obtain ⟨bytes, value⟩ := cell
  cases value with
  | path raw => exact { h with path := rfl }
  | directoryIndex index => exact { h with directoryIndex := rfl }
  | timestamp time => exact { h with timestamp := rfl }
  | size bytes => exact { h with size := rfl }
  | digest => exact { h with digest := .some ⟨hcell.digest rfl, hunit⟩ }
  | nothing => exact h

/-- The columns of a record are read from its cells, wherever the record stands. -/
theorem KeptIn.reads_columns {record : List Cell}
    (hcells : List.Forall₂ (EntryColumn.Holds layout) columns record)
    (h : contents.KeptIn unit entry) {offset : ℕ} (hunit : recordBytes record <+: unit.drop offset) :
    ∃ next, (columns.foldlM (FileTable.readColumn layout) entry).Reads offset (recordBytes record)
        next ∧ (record.foldl FileContents.add contents).KeptIn unit next := by
  induction hcells generalizing contents entry offset with
  | nil => exact ⟨entry, Reader.reads_pure _ _, h⟩
  | cons hcell hrest ih =>
    obtain ⟨hfirst, hmore⟩ := Reader.prefix_drop_append hunit
    obtain ⟨last, hreads, hlast⟩ := ih (h.add hcell hfirst) hmore
    refine ⟨last, ?_, hlast⟩
    rw [List.foldlM_cons]
    exact (hcell.reads entry offset).bind hreads

/-- What is remembered before the path is resolved is described after that. -/
theorem KeptIn.resolve (h : contents.KeptIn unit entry) {path : String}
    (hpath : Path.resolveFile (table.directoryAt entry.directoryIndex) entry.path = .ok path) :
    contents.Describes unit table { entry with path } := by
  obtain ⟨hraw, hdirectory, htime, hsize, hdigest⟩ := h
  rw [hraw, hdirectory] at hpath
  exact ⟨hpath, hdirectory, htime, hsize, hdigest⟩

theorem reads_record {record : List Cell}
    (hcells : List.Forall₂ (EntryColumn.Holds layout) columns record) {offset : ℕ}
    (hunit : recordBytes record <+: unit.drop offset) :
    ∃ filled, (columns.foldlM (FileTable.readColumn layout) { path := "", directoryIndex := 0 }).Reads
        offset (recordBytes record) filled ∧ (of record).KeptIn unit filled :=
  (keptIn_nil unit).reads_columns hcells hunit

/-- A file is read from the cells of its record, wherever the record stands. -/
theorem reads_file {record : List Cell}
    (hcells : List.Forall₂ (EntryColumn.Holds layout) columns record)
    (hpath : (of record).path ≠ "") {offset : ℕ} (hunit : recordBytes record <+: unit.drop offset) :
    ∃ entry, (table.readFile layout columns).Reads offset (recordBytes record) entry ∧
      (of record).Describes unit table entry := by
  obtain ⟨filled, hread, hkept⟩ := reads_record hcells hunit
  have hresolve := Path.resolveFile_eq (table.directoryAt filled.directoryIndex)
    (hkept.path ▸ hpath)
  refine ⟨_, ?_, hkept.resolve hresolve⟩
  unfold FileTable.readFile
  apply hread.bind_nil
  rw [hresolve]
  exact (Reader.reads_lift_ok _ _).bind_pure _

theorem describes_of_readFile {record : List Cell}
    (hcells : List.Forall₂ (EntryColumn.Holds layout) columns record) {offset : ℕ}
    (hunit : recordBytes record <+: unit.drop offset) {rest : List UInt8} {last : Cursor}
    (h : table.readFile layout columns ⟨offset, recordBytes record ++ rest⟩ = .ok (entry, last)) :
    last = ⟨offset + (recordBytes record).length, rest⟩ ∧
      (of record).Describes unit table entry := by
  obtain ⟨filled, hread, hkept⟩ := reads_record hcells hunit
  obtain ⟨found, middle, hfound, h⟩ := Reader.bind_eq_ok.1 h
  rw [hread rest] at hfound
  cases hfound
  obtain ⟨path, _, hpath, h⟩ := Reader.bind_eq_ok.1 h
  cases h
  obtain ⟨hresolve, rfl⟩ := Reader.lift_except_eq_ok hpath
  exact ⟨rfl, hkept.resolve hresolve⟩

/-- Files that were read where the cells of records stand have their contents. -/
theorem describes_of_times {records : List (List Cell)}
    (hcells : ∀ record ∈ records, List.Forall₂ (EntryColumn.Holds layout) columns record)
    {offset : ℕ} (hunit : records.flatMap recordBytes <+: unit.drop offset) {rest : List UInt8}
    {files : List FileEntry} {last : Cursor}
    (h : Reader.times (table.readFile layout columns) records.length
      ⟨offset, records.flatMap recordBytes ++ rest⟩ = .ok (files, last)) :
    List.Forall₂ (fun record => (of record).Describes unit table) records files := by
  induction records generalizing offset files with
  | nil =>
    cases h
    exact .nil
  | cons record records ih =>
    rw [List.flatMap_cons] at hunit
    rw [List.flatMap_cons, List.append_assoc] at h
    obtain ⟨hfirst, hmore⟩ := Reader.prefix_drop_append hunit
    obtain ⟨file, middle, hfile, h⟩ := Reader.bind_eq_ok.1 h
    obtain ⟨later, _, hlater, h⟩ := Reader.bind_eq_ok.1 h
    cases h
    have hrecord := hcells record List.mem_cons_self
    obtain ⟨rfl, hdescribes⟩ := describes_of_readFile hrecord hfirst hfile
    have hothers := fun other hother => hcells other (List.mem_cons_of_mem record hother)
    exact .cons hdescribes (ih hothers hmore hlater)

end FileContents

end DwarfLines
