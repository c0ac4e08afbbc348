import Mathlib
import DwarfLines.Proofs.Files.VendorColumns
import DwarfLines.Proofs.Header.DescribedUnits
import DwarfLines.Proofs.Table.RewrittenPrograms

/-!
# Units with a vendor's column

A unit of version 5 is cut where its directory list ends, and its file list is cut into its pieces.
With a vendor's column among the others the unit has the same directories, its files say the same,
and a pass over it gives rows with the same registers.
-/

namespace DwarfLines

def Header.readDirectoryList (layout : FormLayout) (context : UnitContext) :
    Reader LineError (List EntryColumn × FileTable) := do
  let directoryFormat ← EntryColumn.readDirectoryFormat
  let table ← FileTable.readDirectories layout directoryFormat context
  return (directoryFormat, table)

theorem Header.readDescribed_eq (layout : FormLayout) (context : UnitContext) :
    readDescribed layout context = (do
      let (directoryFormat, table) ← readDirectoryList layout context
      let fileFormat ← EntryColumn.readFileFormat
      let table ← FileTable.readFiles layout table fileFormat
      return (directoryFormat, fileFormat, table)) := by
  simp only [readDescribed, readDirectoryList, bind_assoc, pure_bind]

theorem Header.local_readDirectoryList (layout : FormLayout) (context : UnitContext) :
    (readDirectoryList layout context).Local := by
  apply EntryColumn.local_readDirectoryFormat.bind
  intro columns
  exact (FileTable.local_readDirectories layout columns context).bind_pure _

/-- The same file in two units, except for the place of its digest. -/
structure FileEntry.SameFile (entry other : FileEntry) : Prop where
  path : other.path = entry.path
  directoryIndex : other.directoryIndex = entry.directoryIndex
  timestamp : other.timestamp = entry.timestamp
  size : other.size = entry.size

namespace FileContents

variable {contents : FileContents} {lists : FileTable} {table other : LineTable}
  {entry copy : FileEntry}

theorem Describes.digest_eq (h : contents.Describes table.program.bytes lists entry) :
    table.digest entry = .ok contents.digest := by
  have hdigest := h.digest
  generalize hplace : entry.md5Offset = place at hdigest
  generalize contents.digest = bytes at hdigest
  cases hdigest with
  | none => rw [LineTable.digest, hplace]
  | some hat => exact LineTable.digest_of_isPrefix hplace hat.1 hat.2

theorem Describes.sameFile (h : contents.Describes table.program.bytes lists entry)
    (hcopy : contents.Describes other.program.bytes lists copy) :
    entry.SameFile copy ∧ other.digest copy = table.digest entry := by
  have hpath := hcopy.path
  rw [h.path, Except.ok.injEq] at hpath
  constructor
  · exact ⟨hpath.symm, hcopy.directoryIndex.trans h.directoryIndex.symm,
      hcopy.timestamp.trans h.timestamp.symm, hcopy.size.trans h.size.symm⟩
  · rw [hcopy.digest_eq, h.digest_eq]

end FileContents

/-- A unit of version 5 that is cut where its directory list ends, with its file list in pieces. -/
structure DescribedCut where
  layout : UnitLayout
  directories : List UInt8
  files : ListPieces
  deriving DecidableEq, Repr

namespace DescribedCut

/-- The unit with one more column in its file list; all lengths are computed anew. -/
def widened (cut : DescribedCut) (vendor : VendorColumn) : UnitLayout :=
  { cut.layout with tables := cut.directories ++ (vendor.insertInto cut.files).bytes }

/-- The cut is one of the unit of a table: the unit is written from the layout, the first list is
read as directories, and the second one declares the columns of the table's files. -/
structure Cuts (cut : DescribedCut) (context : UnitContext) (table : LineTable) : Prop where
  writes : cut.layout.Writes context table
  tables : cut.layout.tables = cut.directories ++ cut.files.bytes
  directories : ∃ known, (Header.readDirectoryList (cut.layout.formLayout context.strings)
    context).Reads cut.layout.tablesOffset cut.directories
      (table.program.header.directoryFormat, known)
  files : cut.files.Declares (cut.layout.formLayout context.strings)
    table.program.header.fileFormat

variable {cut : DescribedCut} {context : UnitContext} {table : LineTable} {vendor : VendorColumn}

/-- The lists as they are read: the directories, and with them the files, which have what the
records say. -/
structure Found (cut : DescribedCut) (context : UnitContext) (table : LineTable)
    (known : FileTable) : Prop where
  directories : (Header.readDirectoryList (cut.layout.formLayout context.strings) context).Reads
    cut.layout.tablesOffset cut.directories (table.program.header.directoryFormat, known)
  eq_files : table.files = { known with files := table.files.files }
  files : List.Forall₂ (fun contents => contents.Describes table.program.bytes known)
    cut.files.contents table.files.files
  allowed : ∀ column ∈ table.program.header.fileFormat, column.isAllowed = true

theorem Cuts.version (h : cut.Cuts context table)
    (hversion : table.program.header.version = 5) : cut.layout.version = 5 := by
  rw [← hversion, h.writes.version_eq]

theorem Cuts.exists_found (h : cut.Cuts context table)
    (hversion : table.program.header.version = 5) : ∃ known, cut.Found context table known := by
  obtain ⟨known, hknown⟩ := h.directories
  have hread := h.writes.lists []
  rw [UnitLayout.readLists_eq (h.version hversion), Header.readDescribed_eq, h.tables,
    List.append_assoc] at hread
  obtain ⟨⟨directoryFormat, between⟩, second, hdirectories, hread⟩ := Reader.bind_eq_ok.1 hread
  rw [hknown] at hdirectories
  cases hdirectories
  obtain ⟨fileFormat, third, hformat, hread⟩ := Reader.bind_eq_ok.1 hread
  obtain ⟨files, fourth, hfiles, hread⟩ := Reader.bind_eq_ok.1 hread
  obtain ⟨hne, hallowed, -⟩ := EntryColumn.exists_of_readFileFormat hformat
  have hsame : fileFormat = table.program.header.fileFormat ∧ files = table.files := by
    cases hread
    exact ⟨rfl, rfl⟩
  obtain ⟨rfl, rfl⟩ := hsame
  rw [ListPieces.bytes, List.append_assoc, h.files.reads_fileFormat hne hallowed] at hformat
  cases hformat
  have hunit : cut.layout.tables <+: cut.layout.bytes.drop cut.layout.tablesOffset :=
    UnitLayout.tables_isPrefix
  rw [h.tables, ListPieces.bytes, h.writes.eq_bytes] at hunit
  obtain ⟨-, hunit⟩ := Reader.prefix_drop_append hunit
  obtain ⟨-, hunit⟩ := Reader.prefix_drop_append hunit
  obtain ⟨hlists, hdescribes⟩ := h.files.describes_of_readFiles hunit hfiles
  exact ⟨known, hknown, hlists, hdescribes, hallowed⟩

theorem Found.reads_widened {known : FileTable} (hfound : cut.Found context table known)
    (h : cut.Cuts context table) (hversion : table.program.header.version = 5)
    (hfits : vendor.Fits (cut.layout.formLayout context.strings) cut.files)
    (hlength : table.program.header.fileFormat.length < 255) :
    ∃ files columns, (Header.readLists ((cut.widened vendor).prologue context.addressSize)
        cut.layout.order context).Reads cut.layout.tablesOffset (cut.widened vendor).tables
          (table.program.header.directoryFormat, columns, { known with files }) ∧
      List.Forall₂ (fun contents => contents.Describes (cut.widened vendor).bytes known)
        cut.files.contents files := by
  have hdeclares := hfits.declares h.files hlength
  have hunit : (cut.widened vendor).tables <+:
      (cut.widened vendor).bytes.drop cut.layout.tablesOffset := UnitLayout.tables_isPrefix
  change cut.directories ++ ((vendor.insertInto cut.files).formatBytes ++ _) <+: _ at hunit
  obtain ⟨-, hunit⟩ := Reader.prefix_drop_append hunit
  obtain ⟨-, hunit⟩ := Reader.prefix_drop_append hunit
  have hpaths : ∀ contents ∈ (vendor.insertInto cut.files).contents, contents.path ≠ "" := by
    rw [hfits.contents_insertInto]
    intro contents hcontents
    obtain ⟨i, hi, rfl⟩ := List.getElem_of_mem hcontents
    exact (hfound.files.get hi (hfound.files.length_eq ▸ hi)).path_ne
  obtain ⟨files, hfiles, hdescribes⟩ := hdeclares.reads_files known hpaths hunit
  rw [hfits.contents_insertInto] at hdescribes
  have hposition : vendor.position ≤ table.program.header.fileFormat.length :=
    h.files.format.length_eq ▸ hfits.position
  have hallowed : ∀ column ∈ table.program.header.fileFormat.insertIdx vendor.position vendor.column,
      column.isAllowed = true := by
    intro column hcolumn
    rcases List.eq_or_mem_of_mem_insertIdx hcolumn with rfl | hcolumn
    · exact hfits.isAllowed
    · exact hfound.allowed column hcolumn
  have hne : table.program.header.fileFormat.insertIdx vendor.position vendor.column ≠ [] :=
    List.ne_nil_of_mem ((List.mem_insertIdx hposition).mpr (.inl rfl))
  have hsame : Header.readLists ((cut.widened vendor).prologue context.addressSize)
      cut.layout.order context =
        Header.readDescribed (cut.layout.formLayout context.strings) context :=
    @UnitLayout.readLists_eq (cut.widened vendor) context (h.version hversion)
  refine ⟨files, table.program.header.fileFormat.insertIdx vendor.position vendor.column, ?_,
    hdescribes⟩
  rw [hsame, Header.readDescribed_eq]
  apply hfound.directories.bind
  apply (hdeclares.reads_fileFormat hne hallowed _).bind
  exact hfiles.bind_pure _

/-- The unit with the column is accepted: with the same directories, with files that have what the
records of the unit say, and with the same program. -/
theorem Found.exists_parse_widened {known : FileTable} (hfound : cut.Found context table known)
    (h : cut.Cuts context table) (hversion : table.program.header.version = 5)
    (hvendor : vendor.Fits (cut.layout.formLayout context.strings) cut.files)
    (hcolumns : table.program.header.fileFormat.length < 255)
    (hfits : (cut.widened vendor).fits = true) (hlength : (cut.widened vendor).bytes.length < 2 ^ 64)
    (before after : List UInt8) :
    ∃ other, LineTable.parse cut.layout.order (before ++ (cut.widened vendor).bytes ++ after)
        before.length context = .ok other ∧
      other.files = { known with files := other.files.files } ∧
      List.Forall₂ (fun contents => contents.Describes other.program.bytes known)
        cut.files.contents other.files.files ∧
      other.program.header.toParameters = table.program.header.toParameters ∧
      other.program.bytes.drop other.program.header.programOffset =
        table.program.bytes.drop table.program.header.programOffset := by
  obtain ⟨files, columns, hreads, hdescribes⟩ :=
    hfound.reads_widened h hversion hvendor hcolumns
  have hwell : (cut.widened vendor).WellFormed := { h.writes.wellFormed with }
  have hparse := UnitLayout.parse_eq hwell hfits hlength context hreads before after
  refine ⟨_, hparse, rfl, hdescribes, ?_, ?_⟩
  · exact h.writes.parameters_eq.symm
  · rw [h.writes.drop_programOffset]
    exact (cut.widened vendor).drop_programOffset

end DescribedCut

theorem UnitLayout.Writes.exists_cut {layout : UnitLayout} {context : UnitContext}
    {table : LineTable} (h : layout.Writes context table) (hversion : layout.version = 5) :
    ∃ cut : DescribedCut, cut.layout = layout ∧ cut.Cuts context table := by
  have hread := h.lists []
  rw [readLists_eq hversion, Header.readDescribed_eq] at hread
  obtain ⟨⟨directoryFormat, known⟩, second, hdirectories, hread⟩ := Reader.bind_eq_ok.1 hread
  obtain ⟨fileFormat, third, hformat, hread⟩ := Reader.bind_eq_ok.1 hread
  obtain ⟨files, fourth, hfiles, hread⟩ := Reader.bind_eq_ok.1 hread
  have hsame : directoryFormat = table.program.header.directoryFormat ∧
      fileFormat = table.program.header.fileFormat ∧ fourth.rest = [] := by
    cases hread
    exact ⟨rfl, rfl, rfl⟩
  obtain ⟨rfl, rfl, hend⟩ := hsame
  obtain ⟨directories, hpasses, hreads⟩ := Header.local_readDirectoryList _ _ hdirectories
  obtain ⟨pieces, hmore, hdeclares, -⟩ := FileTable.exists_pieces_of_readFiles hformat hfiles
  have htables := (hpasses.trans hmore).rest
  rw [hend, List.append_nil, List.append_nil] at htables
  exact ⟨⟨layout, directories, pieces⟩, rfl, h, htables, ⟨known, hreads⟩, hdeclares⟩

theorem forall₂_of_common {α β γ : Type} {related : α → β → Prop} {similar : α → γ → Prop}
    {both : β → γ → Prop} {sources : List α} {first : List β} {second : List γ}
    (h : List.Forall₂ related sources first) (hother : List.Forall₂ similar sources second)
    (hboth : ∀ a b c, related a b → similar a c → both b c) : List.Forall₂ both first second := by
  induction h generalizing second with
  | nil =>
    cases hother
    exact .nil
  | cons hhead _ ih =>
    cases hother with
    | cons hsimilar hrest => exact .cons (hboth _ _ _ hhead hsimilar) (ih hrest)

namespace LineTable

variable {order : ByteOrder} {lines : List UInt8} {offset : ℕ} {context : UnitContext}
  {table : LineTable}

/-- Two tables between which a reader of their lists and rows sees no difference: the directories
are the same, the files are the same in the same order, each with its digest, and the rows of a pass
have the same registers. -/
structure LooksAs (table other : LineTable) : Prop where
  directories : other.files.directories = table.files.directories
  files : List.Forall₂ (fun file copy =>
    file.SameFile copy ∧ other.digest copy = table.digest file)
    table.files.files other.files.files
  registers : other.trace.registers = table.trace.registers
  fault : other.trace.fault = none ↔ table.trace.fault = none

/-- A unit with one more column of a vendor's in its file list is accepted and looks as before. The
lists of the unit end where its program begins or before, and its length can still be written in
its format. -/
theorem looksAs_widened (hparse : parse order lines offset context = .ok table)
    (hversion : table.program.header.version = 5)
    (hends : table.program.tablesEnd ≤ table.program.header.programOffset)
    (hcolumns : table.program.header.fileFormat.length < 255) :
    (∃ cut : DescribedCut, cut.Cuts context table) ∧
      ∀ (cut : DescribedCut) (vendor : VendorColumn), cut.Cuts context table →
        vendor.Fits (cut.layout.formLayout context.strings) cut.files →
        (cut.widened vendor).fits = true → (cut.widened vendor).bytes.length < 2 ^ 64 →
        ∀ before after, ∃ other,
          parse order (before ++ (cut.widened vendor).bytes ++ after) before.length context =
            .ok other ∧ table.LooksAs other := by
  constructor
  · obtain ⟨layout, -, hwrites⟩ := exists_writes_of_parse hparse hends
    have hfive : layout.version = 5 := by
      rw [← hversion, hwrites.eq_header]
      rfl
    obtain ⟨cut, -, hcuts⟩ := hwrites.exists_cut hfive
    exact ⟨cut, hcuts⟩
  · intro cut vendor hcuts hvendor hfits hlength before after
    have horder : cut.layout.order = order := by
      obtain ⟨body, -, -, -, rfl, -⟩ := exists_frame_of_parse hparse
      rw [hcuts.writes.eq_header]
      rfl
    obtain ⟨known, hfound⟩ := hcuts.exists_found hversion
    obtain ⟨other, hother, hlists, hdescribes, hparameters, hprogram⟩ :=
      hfound.exists_parse_widened hcuts hversion hvendor hcolumns hfits hlength before after
    rw [horder] at hother
    have hfiles := forall₂_of_common hfound.files hdescribes fun _ _ _ h hcopy => h.sameFile hcopy
    have hdirectories : other.files.directories = table.files.directories := by
      rw [hlists, hfound.eq_files]
    have hcompDir : other.files.compDir = table.files.compDir := by
      rw [hlists, hfound.eq_files]
    have halike : table.trace.Alike FileEntry.SameFile other.trace := by
      apply trace_alike hparse hother hparameters hcompDir hdirectories
      · exact hfiles.imp fun _ _ hfile => hfile.1
      · rw [hprogram]
        exact table.rewritten_verbatim.symm
      · exact MachineState.faithful_verbatim
      · exact fun _ => ⟨rfl, rfl, rfl, rfl⟩
    exact ⟨other, hother, hdirectories, hfiles, halike.registers, halike.fault⟩

/-- A file with a digest, between whose columns comes a block of two bytes. -/
theorem looksAs_widened_block :
    ∃ (cut : DescribedCut) (vendor : VendorColumn) (table other : LineTable),
      cut.Cuts {} table ∧ vendor.Fits (cut.layout.formLayout {}) cut.files ∧
      parse .little
        [52, 0, 0, 0, 5, 0, 8, 0, 40, 0, 0, 0, 1, 1, 1, 251, 14, 4, 0, 1, 1,
          1, 1, 8, 1, 47, 100, 0, 2, 1, 8, 5, 30, 1, 97, 0,
          0, 1, 2, 3, 4, 5, 6, 7, 8, 9, 10, 11, 12, 13, 14, 15, 1, 0, 1, 1] 0 {} = .ok table ∧
      parse .little
        [58, 0, 0, 0, 5, 0, 8, 0, 46, 0, 0, 0, 1, 1, 1, 251, 14, 4, 0, 1, 1,
          1, 1, 8, 1, 47, 100, 0, 3, 1, 8, 129, 64, 9, 5, 30, 1, 97, 0, 2, 7, 7,
          0, 1, 2, 3, 4, 5, 6, 7, 8, 9, 10, 11, 12, 13, 14, 15, 1, 0, 1, 1] 0 {} = .ok other ∧
      table.LooksAs other := by
  obtain ⟨cut, hcut⟩ : ∃ cut : DescribedCut, cut =
      { layout :=
          { order := .little, format := .dwarf32, version := 5, addressSize := 8
            segmentSelectorSize := 0, minimumInstructionLength := 1, maximumOperations := 1
            defaultIsStmt := 1, lineBase := -5, lineRange := 14, opcodeBase := 4
            operandCounts := [0, 1, 1]
            tables := [1, 1, 8, 1, 47, 100, 0, 2, 1, 8, 5, 30, 1, 97, 0,
              0, 1, 2, 3, 4, 5, 6, 7, 8, 9, 10, 11, 12, 13, 14, 15]
            gap := [], program := [1, 0, 1, 1] }
        directories := [1, 1, 8, 1, 47, 100, 0]
        files :=
          { columns := [[1, 8], [5, 30]], count := [1]
            records := [[⟨[97, 0], .path "a"⟩,
              ⟨[0, 1, 2, 3, 4, 5, 6, 7, 8, 9, 10, 11, 12, 13, 14, 15], .digest⟩]] } } := ⟨_, rfl⟩
  have hwell : cut.layout.isWellFormed = true := by rw [hcut]; decide +kernel
  have hfits : cut.layout.fits = true := by rw [hcut]; decide +kernel
  have hlength : cut.layout.bytes.length < 2 ^ 64 := by rw [hcut]; decide +kernel
  have htables : cut.layout.tables = cut.directories ++ cut.files.bytes := by rw [hcut]; rfl
  have hdirectories : (Header.readDirectoryList (cut.layout.formLayout {}) {}).Reads
      cut.layout.tablesOffset cut.directories
        ([⟨1, 8⟩], { compDir := "", directories := ["/d/"] }) :=
    (Header.local_readDirectoryList _ _).reads (by rw [hcut]; decide +kernel)
  have hlists : (Header.readLists (cut.layout.prologue (UnitContext.addressSize {}))
      cut.layout.order {}).Reads cut.layout.tablesOffset cut.layout.tables ([⟨1, 8⟩], [⟨1, 8⟩, ⟨5, 30⟩],
        { compDir := "", directories := ["/d/"]
          files := [{ path := "/d/a", directoryIndex := 0, md5Offset := some 36 }] }) :=
    (Header.local_readLists _ _ _).reads (by rw [hcut]; decide +kernel)
  have hparse := UnitLayout.parse_eq (UnitLayout.wellFormed_of_isWellFormed hwell) hfits hlength {}
    hlists [] []
  have hdigest : (⟨5, 30⟩ : EntryColumn).Holds (cut.layout.formLayout {})
      ⟨[0, 1, 2, 3, 4, 5, 6, 7, 8, 9, 10, 11, 12, 13, 14, 15], .digest⟩ := by
    have hskip : (cut.layout.formLayout {}).skip 30
        (Cursor.start [0, 1, 2, 3, 4, 5, 6, 7, 8, 9, 10, 11, 12, 13, 14, 15]) =
          .ok ((), ⟨16, []⟩) := by
      rw [hcut]
      decide +kernel
    refine ⟨fun entry offset => (Reader.reads_offset offset).nil_bind ?_, fun _ => rfl⟩
    exact (((cut.layout.formLayout {}).portable_skip 30).reads hskip offset).bind_pure _
  have hdeclares : cut.files.Declares (cut.layout.formLayout {}) [⟨1, 8⟩, ⟨5, 30⟩] := by
    have hname : (⟨1, 8⟩ : EntryColumn).Holds (cut.layout.formLayout {}) ⟨[97, 0], .path "a"⟩ :=
      EntryColumn.holds_path rfl
        ((FormLayout.portable_string _ _).reads (by rw [hcut]; decide +kernel))
    rw [hcut] at hname hdigest ⊢
    constructor
    case format =>
      exact .cons (EntryColumn.portable_read.reads (by decide +kernel))
        (.cons (EntryColumn.portable_read.reads (by decide +kernel)) .nil)
    case length_columns => decide
    case count => exact Reader.portable_uleb128.reads (by decide +kernel)
    case length_records => decide
    case records_ne_nil => simp
    case records =>
      intro record hrecord
      obtain rfl := List.mem_singleton.mp hrecord
      exact .cons hname (.cons hdigest .nil)
  obtain ⟨table, hparse, hcuts⟩ : ∃ table, parse cut.layout.order cut.layout.bytes 0 {} = .ok table ∧
      cut.Cuts {} table := by
    rw [List.append_nil] at hparse
    refine ⟨_, hparse, ?_⟩
    exact ⟨⟨UnitLayout.wellFormed_of_isWellFormed hwell, hfits, rfl, rfl, rfl, hlists⟩, htables,
      ⟨_, hdirectories⟩, hdeclares⟩
  have hvendor : (⟨⟨8193, 9⟩, [129, 64, 9], 1, [[2, 7, 7]]⟩ : VendorColumn).Fits
      (cut.layout.formLayout {}) cut.files := by
    rw [hcut]
    exact ⟨.inr (by decide), by decide +kernel, by decide, rfl, by decide +kernel⟩
  have hheader := hcuts.writes.eq_header
  have hends : table.program.tablesEnd ≤ table.program.header.programOffset := by
    have hprogram : table.program.header.programOffset = cut.layout.programOffset := by
      rw [hheader]
      rfl
    rw [hcuts.writes.tablesEnd, hprogram, hcut]
    decide +kernel
  obtain ⟨-, hwidened⟩ := looksAs_widened hparse (by rw [hheader, hcut]; rfl) hends
    (by rw [← hcuts.files.format.length_eq, hcut]; decide)
  obtain ⟨other, hother, hlooks⟩ := hwidened cut _ hcuts hvendor
    (by rw [hcut]; decide +kernel) (by rw [hcut]; decide +kernel) [] []
  refine ⟨cut, _, table, other, hcuts, hvendor, ?_, ?_, hlooks⟩
  · refine Eq.trans ?_ hparse
    rw [hcut]
    decide +kernel
  · refine Eq.trans ?_ hother
    rw [hcut]
    decide +kernel

end LineTable
end DwarfLines
