import Mathlib
import DwarfLines.Proofs.Files.Pieces
import DwarfLines.Proofs.Header.Fields

/-!
# Accepted tables are well formed

Whatever is accepted is a table in the sense of the encoding: its lengths and offsets are those of
the fields in front of them, its divisors are not zero, its operand counts are the standard ones and
those of the section, and its lists are as long as they say, in columns of forms that are permitted.
-/

namespace DwarfLines

def ContentType.forms : ContentType → Option (List Form)
  | path => some [.string, .lineStrp, .strp, .strpSup, .strx, .strx1, .strx2, .strx4]
  | directoryIndex => some [.data1, .data2, .udata]
  | timestamp => some [.udata, .data4, .data8, .block]
  | size => some [.udata, .data1, .data2, .data4, .data8]
  | md5 => some [.data16]
  | loUser | llvmSource | hiUser => none

namespace EntryColumn

/-- A column with a standard content type has one of the forms that suit it. -/
def IsPermitted (column : EntryColumn) : Prop :=
  ∀ known ∈ ContentType.ofCode? column.contentType, ∀ forms ∈ known.forms,
    column.form ∈ forms.map Form.code

theorem isPermitted_of_isAllowed {column : EntryColumn} (h : column.isAllowed = true) :
    column.IsPermitted := by
  intro known hknown forms hforms
  rw [Option.mem_def] at hknown
  cases hform : Form.ofCode? column.form with
  | none => cases known <;> simp [isAllowed, isPathForm, hknown, hform] at h <;> cases hforms
  | some form =>
    rw [← Form.code_of_ofCode? hform]
    cases known <;> cases hforms <;> simp only [isAllowed, isPathForm, hknown, hform] at h
    case some.md5.refl =>
      obtain rfl : form = .data16 := by simpa using h
      decide
    -- What is left are the forms that a standard type allows, and then all others.
    all_goals
      split at h
      all_goals first
        | (rename_i hsame; cases hsame; decide)
        | cases h

end EntryColumn

namespace Header

variable (header : Header)

/-- Where the operand counts stand: behind two lengths, the version, the sizes that only version 5
has, and the machine's parameters, of which versions before 4 have one less. -/
def countsOffset : ℕ :=
  header.format.lengthSize + 2 + (if header.version = 5 then 2 else 0) + header.format.wordSize +
    (if header.version < 4 then 5 else 6)

def tablesOffset : ℕ := header.countsOffset + (header.opcodeBase.toNat - 1)

def formLayout (strings : StringSections) : FormLayout :=
  { order := header.order, format := header.format, addressSize := header.addressSize, strings }

end Header

namespace LineTable

/-- What is well formed about the lists of version 5: their columns are permitted, and they are as
long as the numbers in front of them say. -/
structure DescribedListsWellFormed (context : UnitContext) (table : LineTable) : Prop where
  directoryFormat : ∃ column, table.program.header.directoryFormat = [column] ∧
    column.contentType = ContentType.path.code ∧ column.IsPermitted
  fileFormat_pos : 1 ≤ table.program.header.fileFormat.length
  fileFormat_le : table.program.header.fileFormat.length ≤ 255
  permitted : ∀ column ∈ table.program.header.fileFormat, column.IsPermitted
  counted : ∃ directories files : ListPieces,
    directories.bytes ++ files.bytes <+:
      table.program.bytes.drop table.program.header.tablesOffset ∧
    directories.Declares (table.program.header.formLayout context.strings)
      table.program.header.directoryFormat ∧
    files.Declares (table.program.header.formLayout context.strings)
      table.program.header.fileFormat ∧
    table.files.directories.length = directories.records.length ∧
    table.files.files.length = files.records.length

/-- What is well formed about the lists of earlier versions: they have no columns, and begin with
the compile directory and the unit. -/
structure LegacyListsWellFormed (context : UnitContext) (table : LineTable) : Prop where
  directoryFormat : table.program.header.directoryFormat = []
  fileFormat : table.program.header.fileFormat = []
  compDir : table.files.directories.head? = some (Path.ended context.compDir)
  unitFile : table.files.files.head? = some
    { path := Path.inside (Path.ended context.compDir) context.name, directoryIndex := 0 }

/-- What is well formed about a table that was read at an offset of a line section. -/
structure WellFormed (lines : List UInt8) (offset : ℕ) (context : UnitContext)
    (table : LineTable) : Prop where
  inSection : table.program.bytes <+: lines.drop offset
  two_le_version : 2 ≤ table.program.header.version
  version_le_five : table.program.header.version ≤ 5
  size : table.size = table.program.header.format.lengthSize + table.program.header.unitLength
  programOffset : table.program.header.programOffset =
    table.program.header.format.lengthSize + 2 +
      (if table.program.header.version = 5 then 2 else 0) +
      table.program.header.format.wordSize + table.program.header.headerLength
  programOffset_le : table.program.header.programOffset ≤ table.size
  lineRange : 1 ≤ table.program.header.lineRange
  maximumOperations : 1 ≤ table.program.header.maximumOperations
  maximumOperations_early : table.program.header.version < 4 →
    table.program.header.maximumOperations = 1
  opcodeBase : 1 ≤ table.program.header.opcodeBase
  length_operandCounts :
    table.program.header.operandCounts.length = table.program.header.opcodeBase.toNat
  standardCounts : ∀ opcode : StandardOpcode, opcode.code < table.program.header.opcodeBase →
    table.program.header.operandCounts[opcode.code.toNat]? = some opcode.operandCount
  countsInSection : ∀ opcode, 1 ≤ opcode → opcode < table.program.header.opcodeBase.toNat →
    table.program.header.operandCounts[opcode]? =
      lines[offset + table.program.header.countsOffset + (opcode - 1)]?
  described : table.program.header.version = 5 → table.DescribedListsWellFormed context
  legacy : table.program.header.version < 5 → table.LegacyListsWellFormed context

end LineTable

namespace UnitLayout.Explains

variable {layout : UnitLayout} {context : UnitContext} {bytes : List UInt8} {header : Header}
  {files : FileTable}

theorem parameters (h : layout.Explains context bytes header files) :
    header.toParameters = layout.parameters context.addressSize := by
  rw [h.eq_header]
  rfl

theorem version (h : layout.Explains context bytes header files) :
    header.version = layout.version := by
  rw [h.parameters]
  rfl

theorem format (h : layout.Explains context bytes header files) :
    header.format = layout.format := by
  rw [h.eq_header]
  rfl

theorem countedOffset (h : layout.Explains context bytes header files) :
    layout.countedOffset = header.format.lengthSize + 2 +
      (if header.version = 5 then 2 else 0) + header.format.wordSize := by
  rw [UnitLayout.countedOffset, h.format, h.version, sizeBytes]
  split_ifs <;> rfl

theorem countsOffset (h : layout.Explains context bytes header files) :
    header.countsOffset = layout.countedOffset + layout.parameterBytes.length := by
  rw [Header.countsOffset, ← h.countedOffset, h.version, parameterBytes]
  by_cases hversion : layout.version < 4 <;> simp [hversion]

theorem tablesOffset (h : layout.Explains context bytes header files) :
    header.tablesOffset = layout.tablesOffset := by
  have hbase : header.opcodeBase = layout.opcodeBase := by rw [h.parameters]; rfl
  have hlength := h.wellFormed.length_operandCounts
  rw [Header.tablesOffset, h.countsOffset, UnitLayout.tablesOffset, scalarBytes_eq,
    List.length_append, hbase]
  omega

theorem operandCounts (h : layout.Explains context bytes header files) :
    header.operandCounts = 0 :: layout.operandCounts := by
  rw [h.eq_header]
  rfl

theorem length_operandCounts (h : layout.Explains context bytes header files) :
    header.operandCounts.length = header.opcodeBase.toNat := by
  have hbase : header.opcodeBase = layout.opcodeBase := by rw [h.parameters]; rfl
  have hpos : layout.opcodeBase.toNat ≠ 0 := fun hzero =>
    h.wellFormed.opcodeBase (UInt8.toNat_inj.mp hzero)
  rw [h.operandCounts, List.length_cons, h.wellFormed.length_operandCounts, hbase]
  omega

theorem standardCounts (h : layout.Explains context bytes header files) {opcode : StandardOpcode}
    (hlt : opcode.code < header.opcodeBase) :
    header.operandCounts[opcode.code.toNat]? = some opcode.operandCount := by
  have hlength := h.length_operandCounts
  have hcode := UInt8.lt_iff_toNat_lt.mp hlt
  have hpos : opcode.code.toNat ≠ 0 := fun hzero =>
    opcode.code_ne_zero (UInt8.toNat_inj.mp hzero)
  rw [h.operandCounts, List.length_cons] at hlength
  obtain ⟨i, hi⟩ := Nat.exists_eq_succ_of_ne_zero hpos
  have hlist : i < layout.operandCounts.length := by omega
  have hknown : StandardOpcode.ofCode? (UInt8.ofNat (1 + i)) = some opcode := by
    rw [Nat.add_comm, ← Nat.succ_eq_add_one, ← hi, UInt8.ofNat_toNat, StandardOpcode.ofCode?_code]
  rw [h.operandCounts, hi, List.getElem?_cons_succ, List.getElem?_eq_getElem hlist,
    h.wellFormed.operandCounts i hlist opcode hknown]

theorem countsInUnit (h : layout.Explains context bytes header files) :
    layout.operandCounts <+: bytes.drop header.countsOffset := by
  have hfront := layout.length_frontBytes header.unitLength header.headerLength
  have hbytes : bytes = (layout.frontBytes header.unitLength header.headerLength ++
      layout.parameterBytes) ++ (layout.operandCounts ++ (layout.tables ++ layout.program)) := by
    rw [h.eq_bytes, scalarBytes_eq]
    simp
  rw [h.countsOffset, ← hfront, ← List.length_append, hbytes, List.drop_left]
  exact List.prefix_append _ _

theorem tablesInUnit (h : layout.Explains context bytes header files) :
    layout.tables <+: bytes.drop header.tablesOffset := by
  have hfront := layout.length_frontBytes header.unitLength header.headerLength
  rw [h.tablesOffset, UnitLayout.tablesOffset, ← hfront, h.eq_bytes, ← List.length_append,
    List.append_assoc, List.drop_left]
  exact List.prefix_append _ _

end UnitLayout.Explains

/-- The lists of version 5, cut into their pieces. -/
theorem Header.exists_pieces_of_readDescribed {layout : FormLayout} {context : UnitContext}
    {directoryFormat fileFormat : List EntryColumn} {table : FileTable} {c d : Cursor}
    (h : readDescribed layout context c = .ok ((directoryFormat, fileFormat, table), d)) :
    (∃ column, directoryFormat = [column] ∧ column.contentType = ContentType.path.code ∧
        EntryColumn.isPathForm column.form = true) ∧
      fileFormat ≠ [] ∧ (∀ column ∈ fileFormat, column.isAllowed = true) ∧
      ∃ directories files : ListPieces, c.Passes (directories.bytes ++ files.bytes) d ∧
        directories.Declares layout directoryFormat ∧ files.Declares layout fileFormat ∧
        table.directories.length = directories.records.length ∧
        table.files.length = files.records.length := by
  obtain ⟨found, second, hdirectoryFormat, h⟩ := Reader.bind_eq_ok.1 h
  obtain ⟨between, third, hdirectories, h⟩ := Reader.bind_eq_ok.1 h
  obtain ⟨columns, fourth, hfileFormat, h⟩ := Reader.bind_eq_ok.1 h
  obtain ⟨final, fifth, hfiles, h⟩ := Reader.bind_eq_ok.1 h
  cases h
  obtain ⟨directories, hfirst, hdeclares, hlength, hcolumn⟩ :=
    FileTable.exists_pieces_of_readDirectories hdirectoryFormat hdirectories
  obtain ⟨files, hmore, hdeclaresFiles, hfilesLength, hsame, hne, hallowed⟩ :=
    FileTable.exists_pieces_of_readFiles hfileFormat hfiles
  exact ⟨hcolumn, hne, hallowed, directories, files, hfirst.trans hmore, hdeclares, hdeclaresFiles,
    hsame ▸ hlength, hfilesLength⟩

theorem FileTable.heads_of_readLegacy {context : UnitContext} {table : FileTable} {c d : Cursor}
    (h : readLegacy context c = .ok (table, d)) :
    table.directories.head? = some (Path.ended context.compDir) ∧
      table.files.head? = some
        { path := Path.inside (Path.ended context.compDir) context.name, directoryIndex := 0 } := by
  obtain ⟨compDir, second, hcompDir, h⟩ := Reader.bind_eq_ok.1 h
  obtain ⟨names, third, -, h⟩ := Reader.bind_eq_ok.1 h
  obtain ⟨directories, fourth, hdirectories, h⟩ := Reader.bind_eq_ok.1 h
  obtain ⟨unitPath, fifth, hunitPath, h⟩ := Reader.bind_eq_ok.1 h
  obtain ⟨records, sixth, -, h⟩ := Reader.bind_eq_ok.1 h
  obtain ⟨files, seventh, -, h⟩ := Reader.bind_eq_ok.1 h
  cases h
  obtain rfl := Path.eq_ended_of_normalizeDirectory (Reader.lift_except_eq_ok hcompDir).1
  obtain ⟨declared, -, hdeclared⟩ := exists_of_bind_eq_ok (Reader.lift_except_eq_ok hdirectories).1
  obtain rfl := Path.eq_inside_of_resolveFile (Reader.lift_except_eq_ok hunitPath).1
  cases hdeclared
  exact ⟨rfl, rfl⟩

theorem Header.heads_of_readLists {prologue : HeaderPrologue} {order : ByteOrder}
    {context : UnitContext} {directoryFormat fileFormat : List EntryColumn} {table : FileTable}
    {c d : Cursor} (hversion : prologue.version ≠ 5)
    (h : readLists prologue order context c = .ok ((directoryFormat, fileFormat, table), d)) :
    directoryFormat = [] ∧ fileFormat = [] ∧
      table.directories.head? = some (Path.ended context.compDir) ∧
      table.files.head? = some
        { path := Path.inside (Path.ended context.compDir) context.name, directoryIndex := 0 } := by
  rw [readLists, if_neg hversion] at h
  obtain ⟨legacy, last, hlegacy, h⟩ := Reader.bind_eq_ok.1 h
  cases h
  exact ⟨rfl, rfl, FileTable.heads_of_readLegacy hlegacy⟩

namespace LineTable

variable {order : ByteOrder} {lines : List UInt8} {offset : ℕ} {context : UnitContext}
  {table : LineTable} {layout : UnitLayout}

theorem describedListsWellFormed (hlayout : layout.Explains context table.program.bytes
      table.program.header table.files) (hversion : table.program.header.version = 5) :
    table.DescribedListsWellFormed context := by
  have hread := hlayout.lists []
  have hfive : (layout.prologue context.addressSize).version = 5 := by
    rw [← hversion, hlayout.version]
    rfl
  have hforms : table.program.header.formLayout context.strings =
      { order := layout.order, format := layout.format
        addressSize := (layout.parameters context.addressSize).addressSize
        strings := context.strings } := by
    rw [Header.formLayout, hlayout.format, hlayout.parameters]
    rfl
  rw [Header.readLists, if_pos hfive] at hread
  obtain ⟨⟨column, hcolumn, htype, hform⟩, hne, hallowed, directories, files, hpasses, hdeclares,
    hdeclaresFiles, hlength, hfilesLength⟩ := Header.exists_pieces_of_readDescribed hread
  have htables : layout.tables = directories.bytes ++ files.bytes := by
    simpa using hpasses.rest
  constructor
  case directoryFormat =>
    refine ⟨column, hcolumn, htype, EntryColumn.isPermitted_of_isAllowed ?_⟩
    rw [EntryColumn.isAllowed, htype, ContentType.ofCode?_code]
    exact hform
  case fileFormat_pos => exact List.length_pos_of_ne_nil hne
  case fileFormat_le =>
    have hlt := hdeclaresFiles.length_columns
    rw [hdeclaresFiles.format.length_eq] at hlt
    exact Nat.le_of_lt_succ hlt
  case permitted =>
    exact fun column hmem => EntryColumn.isPermitted_of_isAllowed (hallowed column hmem)
  case counted =>
    refine ⟨directories, files, ?_, ?_, ?_, hlength, hfilesLength⟩
    · rw [← htables]
      exact hlayout.tablesInUnit
    · rw [hforms]
      exact hdeclares
    · rw [hforms]
      exact hdeclaresFiles

theorem legacyListsWellFormed (hlayout : layout.Explains context table.program.bytes
      table.program.header table.files) (hversion : table.program.header.version < 5) :
    table.LegacyListsWellFormed context := by
  have hnot : (layout.prologue context.addressSize).version ≠ 5 := by
    intro hfive
    exact absurd (hlayout.version.trans hfive) (UInt16.ne_of_lt hversion)
  obtain ⟨hdirectories, hfiles, hcompDir, hunit⟩ :=
    Header.heads_of_readLists hnot (hlayout.lists [])
  exact ⟨hdirectories, hfiles, hcompDir, hunit⟩

/-- Whatever is accepted is well formed. -/
theorem wellFormed_of_parse (h : parse order lines offset context = .ok table) :
    table.WellFormed lines offset context := by
  obtain ⟨hunit, -⟩ := read_of_parse h
  obtain ⟨haccepted, -⟩ := accepted_of_parse h
  obtain ⟨body, hframe, -, hlength, -, -⟩ := exists_frame_of_parse h
  obtain ⟨layout, -, hlayout, -⟩ := exists_explains_of_parse h
  have hinSection := isPrefix_of_unitBytes hunit
  have hpos {n : UInt8} (hne : n ≠ 0) : 1 ≤ n := UInt8.pos_iff_ne_zero.mpr hne
  constructor
  case inSection => exact hinSection
  case two_le_version => exact haccepted.two_le_version
  case version_le_five => exact haccepted.version_le_five
  case size => rw [size, LineProgram.size, hframe, DwarfFormat.length_frame, hlength]
  case programOffset =>
    rw [← hlayout.countedOffset, hlayout.eq_header]
  case programOffset_le => exact haccepted.programOffset_le
  case lineRange => exact hpos haccepted.lineRange
  case maximumOperations => exact hpos haccepted.maximumOperations
  case maximumOperations_early =>
    intro hversion
    rw [hlayout.version] at hversion
    rw [hlayout.parameters, UnitLayout.parameters, if_pos hversion]
  case opcodeBase => exact hpos haccepted.opcodeBase
  case length_operandCounts => exact hlayout.length_operandCounts
  case standardCounts => exact fun opcode hlt => hlayout.standardCounts hlt
  case countsInSection =>
    intro opcode hlow hhigh
    obtain ⟨i, rfl⟩ := Nat.exists_eq_add_of_le' hlow
    have hlength := hlayout.length_operandCounts
    rw [hlayout.operandCounts, List.length_cons] at hlength
    have hcounts := hlayout.countsInUnit.trans (hinSection.drop _)
    rw [List.drop_drop] at hcounts
    rw [hlayout.operandCounts, List.getElem?_cons_succ, Nat.add_sub_cancel, ← List.getElem?_drop]
    obtain ⟨rest, hrest⟩ := hcounts
    rw [← hrest, List.getElem?_append_left (by omega)]
  case described => exact describedListsWellFormed hlayout
  case legacy => exact legacyListsWellFormed hlayout

/-- A unit of version 5 with one file and its digest. -/
theorem wellFormed_of_unit_with_digest :
    ∃ table, parse .little
        [51, 0, 0, 0, 5, 0, 8, 0, 40, 0, 0, 0, 1, 1, 1, 251, 14, 4, 0, 1, 1,
          1, 1, 8, 1, 47, 100, 0, 2, 1, 8, 5, 30, 1, 97, 0,
          0, 1, 2, 3, 4, 5, 6, 7, 8, 9, 10, 11, 12, 13, 14, 15, 0, 1, 1] 0 {} = .ok table ∧
      table.WellFormed
        [51, 0, 0, 0, 5, 0, 8, 0, 40, 0, 0, 0, 1, 1, 1, 251, 14, 4, 0, 1, 1,
          1, 1, 8, 1, 47, 100, 0, 2, 1, 8, 5, 30, 1, 97, 0,
          0, 1, 2, 3, 4, 5, 6, 7, 8, 9, 10, 11, 12, 13, 14, 15, 0, 1, 1] 0 {} := by
  have hok : (parse .little
      [51, 0, 0, 0, 5, 0, 8, 0, 40, 0, 0, 0, 1, 1, 1, 251, 14, 4, 0, 1, 1,
        1, 1, 8, 1, 47, 100, 0, 2, 1, 8, 5, 30, 1, 97, 0,
        0, 1, 2, 3, 4, 5, 6, 7, 8, 9, 10, 11, 12, 13, 14, 15, 0, 1, 1] 0 {}).isOk = true := by
    decide +kernel
  obtain ⟨table, htable⟩ := exists_of_isOk hok
  exact ⟨table, htable, wellFormed_of_parse htable⟩

end LineTable
end DwarfLines
