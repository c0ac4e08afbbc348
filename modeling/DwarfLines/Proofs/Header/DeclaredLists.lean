import Mathlib
import DwarfLines.Proofs.Files.AbsolutePaths
import DwarfLines.Proofs.Files.VendorColumns
import DwarfLines.Proofs.Header.DescribedUnits
import DwarfLines.Proofs.Header.Integrity
import DwarfLines.Proofs.Table.Requests

/-!
# The names that a unit's lists declare

What the files of an accepted unit are made of stands in its bytes: before version 5 the unit's own
name and then the names of the records, and in version 5 what the records say. Where the lists
stand is told by the fields in front of them, even if they go on behind the beginning of the
program.
-/

namespace DwarfLines

namespace FileTable

variable {context : UnitContext} {table : FileTable} {layout : FormLayout}
  {columns : List EntryColumn} {c middle d : Cursor}

theorem md5Offset_of_entryOf {record : FileRecord} {entry : FileEntry}
    (h : table.entryOf record = .ok entry) : entry.md5Offset = none := by
  obtain ⟨path, -, h⟩ := exists_of_bind_eq_ok h
  cases h
  rfl

theorem md5Offset_of_legacyFiles {records : List FileRecord} {entries : List FileEntry}
    (h : table.legacyFiles records = .ok entries) :
    ∀ entry ∈ entries, entry.md5Offset = none := by
  intro entry hentry
  obtain ⟨record, -, hrecord⟩ := exists_of_forall₂ (forall₂_of_mapM_eq_ok h) hentry
  exact md5Offset_of_entryOf hrecord

/-- The directory names and file records of a version before 5, read between two places, and the
table that comes of them. -/
structure ComesOf (context : UnitContext) (c : Cursor) (names : List String)
    (records : List FileRecord) (table : FileTable) : Prop where
  reads : ∃ middle last, LegacyLists.directoryNames c = .ok (names, middle) ∧
    LegacyLists.fileRecords middle = .ok (records, last)
  compDir : Path.normalizeDirectory context.compDir = .ok table.compDir
  directories : legacyDirectories table.compDir names = .ok table.directories
  files : ∃ unitPath entries, Path.resolveFile table.compDir context.name = .ok unitPath ∧
    table.legacyFiles records = .ok entries ∧
    table.files = { path := unitPath, directoryIndex := 0 } :: entries

theorem exists_comesOf_of_readLegacy (h : readLegacy context c = .ok (table, d)) :
    ∃ names records, table.ComesOf context c names records := by
  obtain ⟨compDir, second, hcompDir, h⟩ := Reader.bind_eq_ok.1 h
  obtain ⟨names, third, hnames, h⟩ := Reader.bind_eq_ok.1 h
  obtain ⟨directories, fourth, hdirectories, h⟩ := Reader.bind_eq_ok.1 h
  obtain ⟨unitPath, fifth, hunitPath, h⟩ := Reader.bind_eq_ok.1 h
  obtain ⟨records, sixth, hrecords, h⟩ := Reader.bind_eq_ok.1 h
  obtain ⟨entries, seventh, hentries, h⟩ := Reader.bind_eq_ok.1 h
  cases h
  obtain ⟨hnormal, rfl⟩ := Reader.lift_except_eq_ok hcompDir
  obtain ⟨hresolved, rfl⟩ := Reader.lift_except_eq_ok hdirectories
  obtain ⟨hunit, rfl⟩ := Reader.lift_except_eq_ok hunitPath
  obtain ⟨hfiles, rfl⟩ := Reader.lift_except_eq_ok hentries
  refine ⟨names, records, ?_⟩
  constructor
  case reads => exact ⟨_, _, Reader.lift_eq_ok.1 hnames, Reader.lift_eq_ok.1 hrecords⟩
  case compDir => exact hnormal
  case directories => exact hresolved
  case files =>
    refine ⟨unitPath, entries, hunit, ?_, rfl⟩
    exact (legacyFiles_congr rfl rfl records).trans hfiles

namespace ComesOf

variable {names : List String} {records : List FileRecord}

theorem compDir_eq (h : table.ComesOf context c names records) :
    table.compDir = knownCompDir context.compDir := by
  have hcompDir := h.compDir
  have hne : context.compDir ≠ "" := by
    intro hempty
    rw [hempty] at hcompDir
    cases hcompDir
  rw [knownCompDir, if_neg hne]
  exact Path.eq_ended_of_normalizeDirectory hcompDir

theorem placed (h : table.ComesOf context c names records) :
    ∀ directory ∈ table.directories, Path.Placed table.compDir directory := by
  obtain ⟨declared, hdeclared, hall⟩ := exists_of_bind_eq_ok h.directories
  replace hall : table.compDir :: declared = table.directories := Except.ok.inj hall
  rw [← hall]
  intro directory hdirectory
  rcases List.mem_cons.mp hdirectory with rfl | hmem
  · rw [Path.eq_ended_of_normalizeDirectory h.compDir]
    exact Path.placed_ended _
  · obtain ⟨raw, -, hresolved⟩ := exists_of_forall₂ (forall₂_of_mapM_eq_ok hdeclared) hmem
    rw [Path.eq_below_of_resolveDirectory hresolved]
    exact Path.placed_below _ raw

theorem directoryAt_zero (h : table.ComesOf context c names records) :
    table.directoryAt 0 = table.compDir := by
  obtain ⟨declared, -, hall⟩ := exists_of_bind_eq_ok h.directories
  replace hall : table.compDir :: declared = table.directories := Except.ok.inj hall
  rw [directoryAt, ← hall]
  rfl

theorem resolvesAll (h : table.ComesOf context c names records) :
    table.ResolvesAll (context.name :: records.map (·.name)) := by
  obtain ⟨unitPath, entries, hunit, hentries, hfiles⟩ := h.files
  constructor
  case directories => exact h.placed
  case files =>
    rw [hfiles]
    apply List.Forall₂.cons
    · constructor
      · exact Path.ne_of_resolveFile hunit
      · rw [Path.eq_inside_of_resolveFile hunit, h.directoryAt_zero]
    · rw [List.forall₂_map_left_iff]
      exact (forall₂_of_mapM_eq_ok hentries).imp fun _ _ => resolves_of_entryOf

theorem md5Offset (h : table.ComesOf context c names records) :
    ∀ entry ∈ table.files, entry.md5Offset = none := by
  obtain ⟨unitPath, entries, -, hentries, hfiles⟩ := h.files
  rw [hfiles]
  intro entry hentry
  rcases List.mem_cons.mp hentry with rfl | hmem
  · rfl
  · exact md5Offset_of_legacyFiles hentries entry hmem

end ComesOf

theorem placed_of_readDirectories (h : readDirectories layout columns context c = .ok (table, d)) :
    table.compDir = knownCompDir context.compDir ∧
      ∀ directory ∈ table.directories, Path.Placed table.compDir directory := by
  have hitem (compDir : String) :
      (readDirectory layout compDir columns).Gives (Path.Placed compDir) := by
    apply Reader.gives_bind
    intro raw place directory last hread
    rw [Path.eq_below_of_resolveDirectory (Reader.lift_except_eq_ok hread).1]
    exact Path.placed_below compDir raw
  obtain ⟨compDir, second, hcompDir, h⟩ := Reader.bind_eq_ok.1 h
  rw [optionalCompDir_eq] at hcompDir
  cases hcompDir
  obtain ⟨count, third, -, h⟩ := Reader.bind_eq_ok.1 h
  split_ifs at h
  · cases h
  · obtain ⟨directories, fourth, hdirectories, h⟩ := Reader.bind_eq_ok.1 h
    cases h
    exact ⟨rfl, (hitem _).times _ hdirectories⟩

/-- A file list that was read in a unit, cut into its pieces: the files have what the records
say. -/
theorem exists_contents_of_readFiles {unit : List UInt8} {files : FileTable}
    (hunit : c.rest <+: unit.drop c.offset)
    (hformat : EntryColumn.readFileFormat c = .ok (columns, middle))
    (h : readFiles layout table columns middle = .ok (files, d)) :
    ∃ pieces : ListPieces, c.Passes pieces.bytes d ∧ pieces.Declares layout columns ∧
      files = { table with files := files.files } ∧
      List.Forall₂ (fun contents => contents.Describes unit files) pieces.contents files.files := by
  obtain ⟨pieces, hpasses, hdeclares, -, -, hne, hallowed⟩ :=
    exists_pieces_of_readFiles hformat h
  obtain ⟨offset, rest⟩ := c
  obtain rfl : rest = pieces.bytes ++ d.rest := hpasses.rest
  rw [ListPieces.bytes, List.append_assoc, hdeclares.reads_fileFormat hne hallowed] at hformat
  cases hformat
  rw [ListPieces.bytes, List.append_assoc] at hunit
  obtain ⟨-, hrecords⟩ := Reader.prefix_drop_append hunit
  obtain ⟨hsame, hdescribes⟩ :=
    hdeclares.describes_of_readFiles ((List.prefix_append _ _).trans hrecords) h
  refine ⟨pieces, hpasses, hdeclares, hsame, hdescribes.imp ?_⟩
  intro contents entry hentry
  rw [hsame]
  exact { hentry with }

end FileTable

/-- The lists of version 5 stand in a unit from an offset on, cut into their pieces. -/
structure ListsStand (unit : List UInt8) (offset : ℕ) (layout : FormLayout)
    (directoryFormat fileFormat : List EntryColumn) (directoryList fileList : ListPieces) :
    Prop where
  inUnit : directoryList.bytes ++ fileList.bytes <+: unit.drop offset
  directories : directoryList.Declares layout directoryFormat
  files : fileList.Declares layout fileFormat

/-- The table that comes of the lists of version 5. -/
structure FileTable.DescribedBy (context : UnitContext) (unit : List UInt8) (fileList : ListPieces)
    (table : FileTable) : Prop where
  compDir : table.compDir = knownCompDir context.compDir
  placed : ∀ directory ∈ table.directories, Path.Placed table.compDir directory
  describes : List.Forall₂ (fun contents => contents.Describes unit table) fileList.contents
    table.files

theorem Header.exists_describedBy_of_readDescribed {layout : FormLayout} {context : UnitContext}
    {directoryFormat fileFormat : List EntryColumn} {table : FileTable} {unit : List UInt8}
    {offset : ℕ} {last : Cursor}
    (h : readDescribed layout context ⟨offset, unit.drop offset⟩ =
      .ok ((directoryFormat, fileFormat, table), last)) :
    ∃ directoryList fileList,
      ListsStand unit offset layout directoryFormat fileFormat directoryList fileList ∧
      table.DescribedBy context unit fileList := by
  obtain ⟨found, second, hdirectoryFormat, h⟩ := Reader.bind_eq_ok.1 h
  obtain ⟨known, third, hdirectories, h⟩ := Reader.bind_eq_ok.1 h
  obtain ⟨columns, fourth, hfileFormat, h⟩ := Reader.bind_eq_ok.1 h
  obtain ⟨final, fifth, hfiles, h⟩ := Reader.bind_eq_ok.1 h
  cases h
  obtain ⟨directoryList, hfirst, hdeclares, -⟩ :=
    FileTable.exists_pieces_of_readDirectories hdirectoryFormat hdirectories
  obtain ⟨hcompDir, hplaced⟩ := FileTable.placed_of_readDirectories hdirectories
  have hbetween : third.rest <+: unit.drop third.offset := by
    have hrest : unit.drop offset = _ := hfirst.rest
    rw [hfirst.offset, ← List.drop_drop, hrest, List.drop_left]
  obtain ⟨fileList, hmore, hdeclaresFiles, hsame, hdescribes⟩ :=
    FileTable.exists_contents_of_readFiles hbetween hfileFormat hfiles
  refine ⟨directoryList, fileList, ?_, ?_⟩
  · constructor
    case inUnit => exact ⟨_, (hfirst.trans hmore).rest.symm⟩
    case directories => exact hdeclares
    case files => exact hdeclaresFiles
  · constructor
    case compDir =>
      rw [hsame]
      exact hcompDir
    case placed =>
      rw [hsame]
      exact hplaced
    case describes => exact hdescribes

theorem FileTable.DescribedBy.resolvesAll {context : UnitContext} {unit : List UInt8}
    {fileList : ListPieces} {table : FileTable} (h : table.DescribedBy context unit fileList) :
    table.ResolvesAll (fileList.contents.map (·.path)) := by
  constructor
  case directories => exact h.placed
  case files =>
    rw [List.forall₂_map_left_iff]
    refine h.describes.imp fun contents entry hentry => ?_
    constructor
    · exact hentry.path_ne
    · rw [hentry.directoryIndex]
      exact Path.eq_inside_of_resolveFile hentry.path

theorem Header.exists_comesOf_of_readLists {prologue : HeaderPrologue} {order : ByteOrder}
    {context : UnitContext} {directoryFormat fileFormat : List EntryColumn} {table : FileTable}
    {c d : Cursor} (hversion : prologue.version ≠ 5)
    (h : readLists prologue order context c = .ok ((directoryFormat, fileFormat, table), d)) :
    fileFormat = [] ∧ ∃ names records, table.ComesOf context c names records := by
  rw [readLists, if_neg hversion] at h
  obtain ⟨legacy, last, hlegacy, h⟩ := Reader.bind_eq_ok.1 h
  cases h
  exact ⟨rfl, FileTable.exists_comesOf_of_readLegacy hlegacy⟩

/-- The lists are read where they stand in the unit. -/
theorem UnitLayout.Explains.exists_readLists {layout : UnitLayout} {context : UnitContext}
    {bytes : List UInt8} {header : Header} {files : FileTable}
    (h : layout.Explains context bytes header files) :
    ∃ last, Header.readLists (layout.prologue context.addressSize) layout.order context
      ⟨header.tablesOffset, bytes.drop header.tablesOffset⟩ =
        .ok ((header.directoryFormat, header.fileFormat, files), last) := by
  obtain ⟨rest, hrest⟩ := h.tablesInUnit
  rw [← hrest, h.tablesOffset]
  exact ⟨_, h.lists rest⟩

namespace LineTable

variable {order : ByteOrder} {lines : List UInt8} {offset : ℕ} {context : UnitContext}
  {table : LineTable}

/-- The lists of a table of version 5 stand in its unit, with the columns that the header has. -/
def HasLists (context : UnitContext) (table : LineTable) (directoryList fileList : ListPieces) :
    Prop :=
  ListsStand table.program.bytes table.program.header.tablesOffset
    (table.program.header.formLayout context.strings) table.program.header.directoryFormat
    table.program.header.fileFormat directoryList fileList

theorem exists_describedBy_of_parse (h : parse order lines offset context = .ok table)
    (hversion : table.program.header.version = 5) :
    ∃ directoryList fileList, table.HasLists context directoryList fileList ∧
      table.files.DescribedBy context table.program.bytes fileList := by
  obtain ⟨layout, -, hlayout, -⟩ := exists_explains_of_parse h
  obtain ⟨last, hread⟩ := hlayout.exists_readLists
  have hfive : layout.version = 5 := by rw [← hlayout.version, hversion]
  have hforms : table.program.header.formLayout context.strings =
      layout.formLayout context.strings := by
    have hsize : (layout.parameters context.addressSize).addressSize = layout.addressSize :=
      if_pos hfive
    rw [Header.formLayout, UnitLayout.formLayout, ← hsize, hlayout.format, hlayout.parameters]
    rfl
  rw [UnitLayout.readLists_eq hfive, ← hforms] at hread
  exact Header.exists_describedBy_of_readDescribed hread

theorem exists_comesOf_of_parse (h : parse order lines offset context = .ok table)
    (hversion : table.program.header.version ≠ 5) :
    table.program.header.fileFormat = [] ∧
      ∃ names records, table.files.ComesOf context
        (table.program.cursorAt table.program.header.tablesOffset) names records := by
  obtain ⟨layout, -, hlayout, -⟩ := exists_explains_of_parse h
  obtain ⟨last, hread⟩ := hlayout.exists_readLists
  have hnot : (layout.prologue context.addressSize).version ≠ 5 := by
    intro hfive
    exact hversion (hlayout.version.trans hfive)
  exact Header.exists_comesOf_of_readLists hnot hread

end LineTable
end DwarfLines
