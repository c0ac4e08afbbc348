import Mathlib
import DwarfLines.Proofs.Files.Cells

/-!
# Described lists in pieces

The bytes of a described list come in pieces: the description of each column, the number of records
and the records. A list that was read can be cut into its pieces where the readers of the pieces
ended, in whatever encoding the pieces are.
-/

namespace DwarfLines

namespace Reader

variable {ε α σ : Type}

/-- Items that were read one after another, each cut as it can be cut alone. -/
theorem exists_of_times {item : Reader ε α} {write : σ → List UInt8} {Known : σ → α → Prop}
    (hitem : ∀ ⦃c a d⦄, item c = .ok (a, d) → ∃ source, c.Passes (write source) d ∧ Known source a)
    {count : ℕ} {c d : Cursor} {found : List α} (h : times item count c = .ok (found, d)) :
    ∃ sources, sources.length = count ∧ c.Passes (sources.flatMap write) d ∧
      List.Forall₂ Known sources found := by
  induction count generalizing c found with
  | zero =>
    cases h
    exact ⟨[], rfl, .refl _, .nil⟩
  | succ count ih =>
    obtain ⟨a, middle, hfirst, h⟩ := bind_eq_ok.1 h
    obtain ⟨more, _, hmore, h⟩ := bind_eq_ok.1 h
    cases h
    obtain ⟨source, hpasses, hknown⟩ := hitem hfirst
    obtain ⟨sources, hlength, hlater, hall⟩ := ih hmore
    exact ⟨source :: sources, congrArg (· + 1) hlength, hpasses.trans hlater, .cons hknown hall⟩

theorem exists_of_counted {item : Reader LineError α} {write : σ → List UInt8}
    {Known : σ → α → Prop}
    (hitem : ∀ ⦃c a d⦄, item c = .ok (a, d) → ∃ source, c.Passes (write source) d ∧ Known source a)
    {c middle d : Cursor} {count : UInt64} {found : List α}
    (hcount : (liftM uleb128 : Reader LineError UInt64) c = .ok (count, middle))
    (hne : count ≠ 0) (h : times item count.toNat middle = .ok (found, d)) :
    ∃ bytes sources, c.Passes (bytes ++ sources.flatMap write) d ∧
      (∀ offset, uleb128.Reads offset bytes (UInt64.ofNat sources.length)) ∧
      sources.length < 2 ^ 64 ∧ sources ≠ [] ∧ List.Forall₂ Known sources found := by
  obtain ⟨bytes, hpasses, hreads⟩ := portable_uleb128 (lift_eq_ok.1 hcount)
  obtain ⟨sources, hlength, hmore, hall⟩ := exists_of_times hitem h
  refine ⟨bytes, sources, hpasses.trans hmore, ?_, hlength ▸ count.toNat_lt, ?_, hall⟩
  · rw [hlength, UInt64.ofNat_toNat]
    exact hreads
  · rintro rfl
    exact hne (UInt64.toNat_inj.mp hlength.symm)

end Reader

namespace EntryColumn

variable {layout : FormLayout} {columns : List EntryColumn}

theorem exists_of_readDirectoryFormat {c d : Cursor} (h : readDirectoryFormat c = .ok (columns, d)) :
    ∃ column bytes, columns = [column] ∧ column.contentType = ContentType.path.code ∧
      isPathForm column.form = true ∧ c.Passes (1 :: bytes) d ∧
      ∀ offset, read.Reads offset bytes column := by
  obtain ⟨count, middle, hcount, h⟩ := Reader.bind_eq_ok.1 h
  have hfirst := Reader.passes_of_byte (Reader.lift_eq_ok.1 hcount)
  split_ifs at h with hone
  · cases h
  · rw [ne_eq, Decidable.not_not] at hone
    subst hone
    obtain ⟨column, last, hcolumn, h⟩ := Reader.bind_eq_ok.1 h
    obtain ⟨bytes, hpasses, hreads⟩ := portable_read hcolumn
    split_ifs at h with htype hform
    · cases h
    · cases h
      exact ⟨column, bytes, rfl, not_ne_iff.mp htype, hform, hfirst.trans hpasses, hreads⟩
    · cases h

theorem exists_of_readAllowed {column : EntryColumn} {c d : Cursor}
    (h : readAllowed c = .ok (column, d)) :
    column.isAllowed = true ∧ ∃ bytes, c.Passes bytes d ∧ ∀ offset, read.Reads offset bytes column := by
  obtain ⟨found, middle, hfound, h⟩ := Reader.bind_eq_ok.1 h
  obtain ⟨bytes, hpasses, hreads⟩ := portable_read hfound
  split_ifs at h with hallowed
  · cases h
    exact ⟨hallowed, bytes, hpasses, hreads⟩
  · cases h

theorem exists_of_readFileFormat {c d : Cursor} (h : readFileFormat c = .ok (columns, d)) :
    columns ≠ [] ∧ (∀ column ∈ columns, column.isAllowed = true) ∧
      ∃ descriptions : List (List UInt8), descriptions.length < 256 ∧
        c.Passes (UInt8.ofNat descriptions.length :: descriptions.flatten) d ∧
        List.Forall₂ (fun bytes column => ∀ offset, read.Reads offset bytes column)
          descriptions columns := by
  obtain ⟨count, middle, hcount, h⟩ := Reader.bind_eq_ok.1 h
  have hfirst := Reader.passes_of_byte (Reader.lift_eq_ok.1 hcount)
  split_ifs at h with hzero
  · cases h
  · have hitem ⦃c : Cursor⦄ ⦃column : EntryColumn⦄ ⦃d : Cursor⦄
        (hread : readAllowed c = .ok (column, d)) :
        ∃ bytes, c.Passes (id bytes) d ∧ column.isAllowed = true ∧
          ∀ offset, read.Reads offset bytes column := by
      obtain ⟨hallowed, bytes, hpasses, hreads⟩ := exists_of_readAllowed hread
      exact ⟨bytes, hpasses, hallowed, hreads⟩
    obtain ⟨descriptions, hlength, hpasses, hall⟩ := Reader.exists_of_times hitem h
    have hcounted := hall.length_eq
    refine ⟨?_, ?_, descriptions, hlength ▸ count.toNat_lt, ?_, hall.imp fun _ _ hknown => hknown.2⟩
    · rintro rfl
      rw [List.length_nil, hlength] at hcounted
      exact hzero (UInt8.toNat_inj.mp hcounted)
    · intro column hcolumn
      obtain ⟨i, hi, rfl⟩ := List.getElem_of_mem hcolumn
      exact (hall.get (hcounted ▸ hi) hi).1
    · rw [hlength, UInt8.ofNat_toNat]
      rw [List.flatMap_id] at hpasses
      exact hfirst.trans hpasses

end EntryColumn

namespace FileTable

variable {layout : FormLayout} {columns : List EntryColumn} {c d : Cursor}

theorem exists_of_readDirectory {compDir path : String} {column : EntryColumn}
    (htype : column.contentType = ContentType.path.code)
    (h : readDirectory layout compDir [column] c = .ok (path, d)) :
    ∃ record, c.Passes (recordBytes record) d ∧
      List.Forall₂ (EntryColumn.Holds layout) [column] record := by
  obtain ⟨raw, middle, hraw, h⟩ := Reader.bind_eq_ok.1 h
  rw [List.foldlM_cons] at hraw
  obtain ⟨text, _, htext, hlast⟩ := Reader.bind_eq_ok.1 hraw
  cases hlast
  obtain ⟨bytes, hpasses, hreads⟩ := layout.portable_string _ htext
  obtain ⟨-, rfl⟩ := Reader.lift_except_eq_ok h
  have hknown : ContentType.ofCode? column.contentType = some .path := by
    rw [htype, ContentType.ofCode?_code]
  refine ⟨[⟨bytes, .path raw⟩], ?_, .cons (EntryColumn.holds_path hknown hreads) .nil⟩
  simpa [recordBytes] using hpasses

theorem exists_of_readColumns (hallowed : ∀ column ∈ columns, column.isAllowed = true)
    {entry last : FileEntry} (h : columns.foldlM (readColumn layout) entry c = .ok (last, d)) :
    ∃ record, c.Passes (recordBytes record) d ∧
      List.Forall₂ (EntryColumn.Holds layout) columns record := by
  induction columns generalizing entry c with
  | nil =>
    cases h
    exact ⟨[], .refl _, .nil⟩
  | cons column columns ih =>
    rw [List.foldlM_cons] at h
    obtain ⟨next, middle, hfirst, hrest⟩ := Reader.bind_eq_ok.1 h
    obtain ⟨cell, hpasses, hholds⟩ :=
      EntryColumn.exists_holds_of_readColumn (hallowed column List.mem_cons_self) hfirst
    obtain ⟨record, hmore, hall⟩ :=
      ih (fun other hother => hallowed other (List.mem_cons_of_mem column hother)) hrest
    exact ⟨cell :: record, hpasses.trans hmore, .cons hholds hall⟩

theorem exists_of_readFile {table : FileTable} {file : FileEntry}
    (hallowed : ∀ column ∈ columns, column.isAllowed = true)
    (h : table.readFile layout columns c = .ok (file, d)) :
    ∃ record, c.Passes (recordBytes record) d ∧
      List.Forall₂ (EntryColumn.Holds layout) columns record := by
  obtain ⟨filled, middle, hfilled, h⟩ := Reader.bind_eq_ok.1 h
  obtain ⟨record, hpasses, hall⟩ := exists_of_readColumns hallowed hfilled
  obtain ⟨path, last, hpath, h⟩ := Reader.bind_eq_ok.1 h
  cases h
  obtain ⟨-, rfl⟩ := Reader.lift_except_eq_ok hpath
  exact ⟨record, hpasses, hall⟩

end FileTable

/-- A described list in pieces: the descriptions of its columns, the number of its records, and
its records. -/
structure ListPieces where
  columns : List (List UInt8)
  count : List UInt8
  records : List (List Cell)
  deriving DecidableEq, Repr

namespace ListPieces

def formatBytes (pieces : ListPieces) : List UInt8 :=
  UInt8.ofNat pieces.columns.length :: pieces.columns.flatten

def recordsBytes (pieces : ListPieces) : List UInt8 :=
  pieces.count ++ pieces.records.flatMap recordBytes

def bytes (pieces : ListPieces) : List UInt8 := pieces.formatBytes ++ pieces.recordsBytes

/-- A list is cut into pieces where its readers end: each description is that of a column, the
count is that of the records, of which there are some, and every record has a cell for every
column. -/
structure Declares (pieces : ListPieces) (layout : FormLayout) (columns : List EntryColumn) :
    Prop where
  format : List.Forall₂ (fun bytes column => ∀ offset, EntryColumn.read.Reads offset bytes column)
    pieces.columns columns
  length_columns : pieces.columns.length < 256
  count : ∀ offset, Reader.uleb128.Reads offset pieces.count (UInt64.ofNat pieces.records.length)
  length_records : pieces.records.length < 2 ^ 64
  records_ne_nil : pieces.records ≠ []
  records : ∀ record ∈ pieces.records, List.Forall₂ (EntryColumn.Holds layout) columns record

end ListPieces

namespace FileTable

variable {layout : FormLayout} {context : UnitContext} {c middle d : Cursor}

theorem exists_pieces_of_readDirectories {columns : List EntryColumn} {table : FileTable}
    (hformat : EntryColumn.readDirectoryFormat c = .ok (columns, middle))
    (h : readDirectories layout columns context middle = .ok (table, d)) :
    ∃ pieces : ListPieces, c.Passes pieces.bytes d ∧ pieces.Declares layout columns ∧
      table.directories.length = pieces.records.length ∧
      ∃ column, columns = [column] ∧ column.contentType = ContentType.path.code ∧
        EntryColumn.isPathForm column.form = true := by
  obtain ⟨column, description, rfl, htype, hform, hpasses, hreads⟩ :=
    EntryColumn.exists_of_readDirectoryFormat hformat
  obtain ⟨compDir, _, hcompDir, h⟩ := Reader.bind_eq_ok.1 h
  rw [optionalCompDir_eq] at hcompDir
  cases hcompDir
  obtain ⟨count, third, hcount, h⟩ := Reader.bind_eq_ok.1 h
  split_ifs at h with hzero
  · cases h
  · obtain ⟨directories, _, hdirectories, h⟩ := Reader.bind_eq_ok.1 h
    cases h
    have hitem ⦃c : Cursor⦄ ⦃path : String⦄ ⦃d : Cursor⦄
        (hread : readDirectory layout (knownCompDir context.compDir) [column] c = .ok (path, d)) :=
      exists_of_readDirectory htype hread
    obtain ⟨countBytes, records, hmore, hcountReads, hlength, hne, hall⟩ :=
      Reader.exists_of_counted hitem hcount hzero hdirectories
    refine ⟨⟨[description], countBytes, records⟩, ?_, ?_, hall.length_eq.symm, column, rfl, htype,
      hform⟩
    · simpa [ListPieces.bytes, ListPieces.formatBytes, ListPieces.recordsBytes]
        using hpasses.trans hmore
    · refine ⟨.cons hreads .nil, by simp, hcountReads, hlength, hne, ?_⟩
      intro record hrecord
      obtain ⟨i, hi, rfl⟩ := List.getElem_of_mem hrecord
      exact hall.get hi (hall.length_eq ▸ hi)

/-- A file list that was read, cut into its pieces. -/
theorem exists_pieces_of_readFiles {columns : List EntryColumn} {table files : FileTable}
    (hformat : EntryColumn.readFileFormat c = .ok (columns, middle))
    (h : readFiles layout table columns middle = .ok (files, d)) :
    ∃ pieces : ListPieces, c.Passes pieces.bytes d ∧ pieces.Declares layout columns ∧
      files.files.length = pieces.records.length ∧ files.directories = table.directories ∧
      columns ≠ [] ∧ ∀ column ∈ columns, column.isAllowed = true := by
  obtain ⟨hcolumns, hallowed, descriptions, hlt, hpasses, hreads⟩ :=
    EntryColumn.exists_of_readFileFormat hformat
  obtain ⟨count, third, hcount, h⟩ := Reader.bind_eq_ok.1 h
  split_ifs at h with hzero
  · cases h
  · obtain ⟨found, _, hfound, h⟩ := Reader.bind_eq_ok.1 h
    cases h
    have hitem ⦃c : Cursor⦄ ⦃file : FileEntry⦄ ⦃d : Cursor⦄
        (hread : readFile layout table columns c = .ok (file, d)) :=
      exists_of_readFile hallowed hread
    obtain ⟨countBytes, records, hmore, hcountReads, hlength, hne, hall⟩ :=
      Reader.exists_of_counted hitem hcount hzero hfound
    refine ⟨⟨descriptions, countBytes, records⟩, hpasses.trans hmore, ?_, hall.length_eq.symm, rfl,
      hcolumns, hallowed⟩
    refine ⟨hreads, hlt, hcountReads, hlength, hne, ?_⟩
    intro record hrecord
    obtain ⟨i, hi, rfl⟩ := List.getElem_of_mem hrecord
    exact hall.get hi (hall.length_eq ▸ hi)

end FileTable

end DwarfLines
