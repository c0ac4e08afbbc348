import Mathlib
import DwarfLines.Proofs.Files.Pieces

/-!
# Vendor columns

A column whose content type is a vendor's is skipped, whatever form it has. Put into a file list,
among the other columns at any position, it leaves what every record says as it is: the cells of
the other columns are read as before, each a little later.
-/

namespace DwarfLines

theorem Reader.reads_each {ε α : Type} {item : Reader ε α} {pieces : List (List UInt8)}
    {found : List α}
    (h : List.Forall₂ (fun bytes a => ∀ offset, item.Reads offset bytes a) pieces found)
    (offset : ℕ) : (Reader.times item pieces.length).Reads offset pieces.flatten found := by
  induction h generalizing offset with
  | nil => exact Reader.reads_pure _ _
  | cons hitem _ ih => exact (hitem offset).bind ((ih _).bind_pure _)

theorem forall₂_insertIdx {α β : Type} {related : α → β → Prop} {first : List α}
    {second : List β} (h : List.Forall₂ related first second) {a : α} {b : β} (hab : related a b)
    (i : ℕ) : List.Forall₂ related (first.insertIdx i a) (second.insertIdx i b) := by
  induction i generalizing first second with
  | zero => exact .cons hab h
  | succ i ih =>
    cases h with
    | nil => exact .nil
    | cons hhead hrest => exact .cons hhead (ih hrest)

theorem forall₂_zipWith {α β γ : Type} (f : α → β → γ) {first : List α} {second : List β}
    (hlength : second.length = first.length) :
    List.Forall₂ (fun a c => ∃ b ∈ second, c = f a b) first (List.zipWith f first second) := by
  induction first generalizing second with
  | nil => exact .nil
  | cons a first ih =>
    cases second with
    | nil => cases hlength
    | cons b second =>
      refine .cons ⟨b, List.mem_cons_self, rfl⟩ ((ih (Nat.succ.inj hlength)).imp ?_)
      rintro c d ⟨e, he, rfl⟩
      exact ⟨e, List.mem_cons_of_mem b he, rfl⟩

namespace ListPieces

variable {pieces : ListPieces} {layout : FormLayout} {columns : List EntryColumn}

/-- What the records of a list say. -/
def contents (pieces : ListPieces) : List FileContents := pieces.records.map FileContents.of

theorem Declares.reads_fileFormat (h : pieces.Declares layout columns) (hne : columns ≠ [])
    (hallowed : ∀ column ∈ columns, column.isAllowed = true) (offset : ℕ) :
    EntryColumn.readFileFormat.Reads offset pieces.formatBytes columns := by
  have hcount := EntryColumn.toNat_count h.length_columns
  have hnonzero : UInt8.ofNat pieces.columns.length ≠ 0 := by
    intro hzero
    rw [hzero, h.format.length_eq] at hcount
    exact (List.length_pos_of_ne_nil hne).ne hcount
  have hitems : List.Forall₂
      (fun bytes column => ∀ offset, EntryColumn.readAllowed.Reads offset bytes column)
      pieces.columns columns := by
    refine ((List.forall₂_and_left _ _).mpr ⟨hallowed, h.format.flip⟩).flip.imp ?_
    intro bytes column hcolumn start
    apply (hcolumn.2 start).bind_nil
    simp only [hcolumn.1, if_true]
    exact Reader.reads_pure _ _
  unfold EntryColumn.readFileFormat
  apply Reader.Reads.byte_bind
  simp only [hnonzero, if_false, hcount]
  exact Reader.reads_each hitems _

theorem Declares.toNat_count (h : pieces.Declares layout columns) :
    (UInt64.ofNat pieces.records.length).toNat = pieces.records.length ∧
      UInt64.ofNat pieces.records.length ≠ 0 := by
  have hword : (UInt64.ofNat pieces.records.length).toNat = pieces.records.length :=
    UInt64.toNat_ofNat_of_lt' h.length_records
  refine ⟨hword, ?_⟩
  intro hzero
  rw [hzero] at hword
  exact (List.length_pos_of_ne_nil h.records_ne_nil).ne hword

theorem Declares.reads_files (h : pieces.Declares layout columns) (table : FileTable)
    (hpaths : ∀ contents ∈ pieces.contents, contents.path ≠ "") {unit : List UInt8} {offset : ℕ}
    (hunit : pieces.recordsBytes <+: unit.drop offset) :
    ∃ files, (FileTable.readFiles layout table columns).Reads offset pieces.recordsBytes
        { table with files } ∧
      List.Forall₂ (fun contents => contents.Describes unit table) pieces.contents files := by
  obtain ⟨hword, hnonzero⟩ := h.toNat_count
  obtain ⟨-, hmore⟩ := Reader.prefix_drop_append hunit
  have hitems : List.Forall₂ (fun contents bytes => ∀ offset, bytes <+: unit.drop offset →
      ∃ file, (table.readFile layout columns).Reads offset bytes file ∧
        FileContents.Describes contents unit table file)
      pieces.contents (pieces.records.map recordBytes) := by
    rw [contents, List.forall₂_map_left_iff, List.forall₂_map_right_iff, List.forall₂_same]
    intro record hrecord start hstart
    exact FileContents.reads_file (h.records record hrecord)
      (hpaths _ (List.mem_map_of_mem hrecord)) hstart
  rw [List.flatMap_def] at hmore
  obtain ⟨files, hreads, hdescribes⟩ := Reader.reads_times hitems hmore
  refine ⟨files, ?_, hdescribes⟩
  unfold FileTable.readFiles
  apply (h.count offset).lift.bind
  simp only [hnonzero, if_false, hword]
  rw [List.length_map, ← List.flatMap_def] at hreads
  exact hreads.bind_pure _

/-- Files that were read from the records of a list have what the records say. -/
theorem Declares.describes_of_readFiles (h : pieces.Declares layout columns)
    {table files : FileTable} {unit : List UInt8} {offset : ℕ}
    (hunit : pieces.recordsBytes <+: unit.drop offset) {rest : List UInt8} {last : Cursor}
    (hread : FileTable.readFiles layout table columns ⟨offset, pieces.recordsBytes ++ rest⟩ =
      .ok (files, last)) :
    files = { table with files := files.files } ∧
      List.Forall₂ (fun contents => contents.Describes unit table) pieces.contents files.files := by
  obtain ⟨hword, hnonzero⟩ := h.toNat_count
  obtain ⟨-, hmore⟩ := Reader.prefix_drop_append hunit
  obtain ⟨count, middle, hcount, hread⟩ := Reader.bind_eq_ok.1 hread
  have hagain := Reader.lift_eq_ok.1 hcount
  rw [recordsBytes, List.append_assoc, h.count] at hagain
  cases hagain
  rw [if_neg hnonzero, hword] at hread
  obtain ⟨found, _, hfound, hread⟩ := Reader.bind_eq_ok.1 hread
  cases hread
  refine ⟨rfl, ?_⟩
  rw [contents, List.forall₂_map_left_iff]
  exact FileContents.describes_of_times h.records hmore hfound

end ListPieces

theorem FileContents.Describes.path_ne {contents : FileContents} {unit : List UInt8}
    {table : FileTable} {entry : FileEntry} (h : contents.Describes unit table entry) :
    contents.path ≠ "" := by
  intro hempty
  have hpath := h.path
  rw [hempty] at hpath
  cases hpath

/-- A column that is to be put into a file list: what it is and by which bytes it is described, its
position among the columns, and the bytes that it has in each record. -/
structure VendorColumn where
  column : EntryColumn
  description : List UInt8
  position : ℕ
  values : List (List UInt8)
  deriving DecidableEq, Repr

namespace VendorColumn

variable {vendor : VendorColumn} {layout : FormLayout} {pieces : ListPieces}
  {columns : List EntryColumn}

def insertInto (vendor : VendorColumn) (pieces : ListPieces) : ListPieces where
  columns := pieces.columns.insertIdx vendor.position vendor.description
  count := pieces.count
  records := List.zipWith
    (fun record value => record.insertIdx vendor.position ⟨value, .nothing⟩)
    pieces.records vendor.values

/-- A column that can be put into a list: its content type is none of the standard ones, which are
those from 1 to 5, it is described by its bytes, and it has a value in every record, which is
skipped to its end. -/
structure Fits (vendor : VendorColumn) (layout : FormLayout) (pieces : ListPieces) : Prop where
  contentType : vendor.column.contentType = 0 ∨ 5 < vendor.column.contentType
  description : EntryColumn.read (Cursor.start vendor.description) =
    .ok (vendor.column, ⟨vendor.description.length, []⟩)
  position : vendor.position ≤ pieces.columns.length
  length_values : vendor.values.length = pieces.records.length
  values : ∀ value ∈ vendor.values,
    layout.skip vendor.column.form (Cursor.start value) = .ok ((), ⟨value.length, []⟩)

/-- A vendor's content type has no name, or one of those that mean nothing here. -/
theorem Fits.ofCode?_contentType (h : vendor.Fits layout pieces) :
    ContentType.ofCode? vendor.column.contentType = none ∨
      ContentType.ofCode? vendor.column.contentType = some .loUser ∨
      ContentType.ofCode? vendor.column.contentType = some .llvmSource ∨
      ContentType.ofCode? vendor.column.contentType = some .hiUser := by
  cases hknown : ContentType.ofCode? vendor.column.contentType with
  | none => exact .inl rfl
  | some known =>
    have htype := h.contentType
    rw [← ContentType.code_of_ofCode? hknown] at htype
    revert htype
    cases known <;> decide

theorem Fits.readColumn_eq (h : vendor.Fits layout pieces) (entry : FileEntry) :
    FileTable.readColumn layout entry vendor.column =
      (do layout.skip vendor.column.form; return entry) := by
  unfold FileTable.readColumn
  rcases h.ofCode?_contentType with hknown | hknown | hknown | hknown <;> rw [hknown]

theorem Fits.isAllowed (h : vendor.Fits layout pieces) : vendor.column.isAllowed = true := by
  unfold EntryColumn.isAllowed
  rcases h.ofCode?_contentType with hknown | hknown | hknown | hknown <;> rw [hknown]

theorem Fits.holds (h : vendor.Fits layout pieces) {value : List UInt8}
    (hvalue : value ∈ vendor.values) : vendor.column.Holds layout ⟨value, .nothing⟩ := by
  constructor
  · intro entry offset
    rw [h.readColumn_eq]
    exact ((layout.portable_skip _).reads (h.values value hvalue) offset).bind_pure _
  · intro hdigest
    cases hdigest

theorem Fits.records_insertInto (h : vendor.Fits layout pieces) :
    List.Forall₂ (fun record widened => ∃ value ∈ vendor.values,
      widened = record.insertIdx vendor.position ⟨value, .nothing⟩)
      pieces.records (vendor.insertInto pieces).records :=
  forall₂_zipWith _ h.length_values

end VendorColumn

theorem FileContents.of_insertIdx (record : List Cell) (i : ℕ) (value : List UInt8) :
    of (record.insertIdx i ⟨value, .nothing⟩) = of record := by
  have hadd (contents : FileContents) :
      (record.insertIdx i ⟨value, .nothing⟩).foldl add contents = record.foldl add contents := by
    induction i generalizing record contents with
    | zero => rfl
    | succ i ih =>
      cases record with
      | nil => rfl
      | cons cell record => exact ih record _
  exact hadd {}

namespace VendorColumn

variable {vendor : VendorColumn} {layout : FormLayout} {pieces : ListPieces}
  {columns : List EntryColumn}

theorem Fits.contents_insertInto (h : vendor.Fits layout pieces) :
    (vendor.insertInto pieces).contents = pieces.contents := by
  have hsame : List.Forall₂ (· = ·) pieces.contents (vendor.insertInto pieces).contents := by
    rw [ListPieces.contents, ListPieces.contents, List.forall₂_map_left_iff,
      List.forall₂_map_right_iff]
    refine h.records_insertInto.imp ?_
    rintro record widened ⟨value, -, rfl⟩
    exact (FileContents.of_insertIdx record _ value).symm
  rw [List.forall₂_eq_eq_eq] at hsame
  exact hsame.symm

/-- The list declares one more column. -/
theorem Fits.declares (h : vendor.Fits layout pieces) (hpieces : pieces.Declares layout columns)
    (hlength : columns.length < 255) :
    (vendor.insertInto pieces).Declares layout
      (columns.insertIdx vendor.position vendor.column) := by
  have hrecords := h.records_insertInto
  constructor
  case format =>
    exact forall₂_insertIdx hpieces.format (EntryColumn.portable_read.reads h.description) _
  case length_columns =>
    have hcolumns := hpieces.format.length_eq
    exact Nat.lt_of_le_of_lt List.length_insertIdx_le_succ (by omega)
  case count =>
    rw [← hrecords.length_eq]
    exact hpieces.count
  case length_records => exact hrecords.length_eq ▸ hpieces.length_records
  case records_ne_nil =>
    intro hnil
    rw [hnil, List.forall₂_nil_right_iff] at hrecords
    exact hpieces.records_ne_nil hrecords
  case records =>
    intro widened hwidened
    obtain ⟨i, hi, rfl⟩ := List.getElem_of_mem hwidened
    have hlt : i < pieces.records.length := hrecords.length_eq ▸ hi
    obtain ⟨value, hvalue, hinserted⟩ := hrecords.get hlt hi
    rw [List.get_eq_getElem, List.get_eq_getElem] at hinserted
    rw [hinserted]
    exact forall₂_insertIdx (hpieces.records _ (List.getElem_mem hlt)) (h.holds hvalue) _

end VendorColumn
end DwarfLines
