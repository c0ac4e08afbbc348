import Mathlib
import DwarfLines.Proofs.Bytes.CountedLoops
import DwarfLines.Proofs.Files.LegacyReading
import DwarfLines.Proofs.Header.DescribedUnits
import DwarfLines.Proofs.Header.Locality

/-!
# Declared lists do not run away

The directories and files of a header are read by loops that go round as often as a number in the
unit says, or up to an empty name. Each entry that is read passes at least one byte: a name is
ended by a byte, a path takes bytes in each of its forms, and a record whose columns take none has
no path and is refused. So no loop begins more rounds than there are bytes, and one more that
fails; the lists that are read have no more entries than the unit has bytes.
-/

namespace DwarfLines

/-! ### Each entry passes a byte -/

/-- Steps that keep a value or pass a byte do so together. -/
theorem Reader.eq_or_lt_of_foldlM {ε α β σ : Type} (value : σ → β) {step : σ → α → Reader ε σ}
    (h : ∀ {s a t} {c d : Cursor}, step s a c = .ok (t, d) →
      c ≤ d ∧ (value t = value s ∨ c < d))
    {items : List α} {s t : σ} {c d : Cursor} (hread : items.foldlM step s c = .ok (t, d)) :
    c ≤ d ∧ (value t = value s ∨ c < d) := by
  induction items generalizing s c with
  | nil =>
    cases hread
    exact ⟨Cursor.le_refl _, .inl rfl⟩
  | cons a rest ih =>
    rw [List.foldlM_cons] at hread
    obtain ⟨between, middle, hfirst, hrest⟩ := Reader.bind_eq_ok.1 hread
    obtain ⟨hle, hkept⟩ := h hfirst
    obtain ⟨hmore, hmoreKept⟩ := ih hrest
    refine ⟨Cursor.le_trans hle hmore, ?_⟩
    rcases hkept with hkept | hlt
    · rcases hmoreKept with hmoreKept | hlt
      · exact .inl (hmoreKept.trans hkept)
      · exact .inr (Cursor.lt_of_le_of_lt hle hlt)
    · exact .inr (Cursor.lt_of_lt_of_le hlt hmore)

theorem FormLayout.consuming_string (layout : FormLayout) (code : UInt16) :
    (layout.string code).Consuming := by
  have fixed {width : ℕ} (h : 0 < width) :=
    Reader.consuming_lift (Reader.consuming_fixed layout.order h)
  have word := fixed layout.format.wordSize_pos
  have found {ε α : Type} (result : Except ε α) := Reader.forward_lift_except result
  unfold string
  split
  · exact (Reader.consuming_lift Reader.consuming_terminated).bind fun _ => Reader.forward_pure _
  · exact word.bind fun _ => found _
  · exact word.bind fun _ => found _
  · exact word.bind fun _ => found _
  · exact (Reader.consuming_lift Reader.consuming_uleb128).bind fun _ => found _
  · exact (fixed (by decide)).bind fun _ => found _
  · exact (fixed (by decide)).bind fun _ => found _
  · exact (fixed (by decide)).bind fun _ => found _
  · nofun

namespace FileTable

variable (layout : FormLayout)

theorem consuming_readDirectory (compDir : String) (columns : List EntryColumn) :
    (readDirectory layout compDir columns).Consuming := by
  intro c directory d h
  obtain ⟨raw, middle, hcolumns, h⟩ := Reader.bind_eq_ok.1 h
  obtain ⟨hresolved, rfl⟩ := Reader.lift_except_eq_ok h
  obtain ⟨-, hempty | hlt⟩ := Reader.eq_or_lt_of_foldlM id
    (fun hread => ⟨(layout.consuming_string _ hread).1, .inr (layout.consuming_string _ hread)⟩)
    hcolumns
  · obtain rfl : raw = "" := hempty
    cases hresolved
  · exact hlt

/-- Only the column of the path changes the path. -/
theorem path_of_readColumn (entry : FileEntry) {column : EntryColumn}
    (h : ContentType.ofCode? column.contentType ≠ some .path) :
    (readColumn layout entry column).Gives fun next => next.path = entry.path := by
  unfold readColumn
  split
  · contradiction
  · exact Reader.gives_bind fun _ => Reader.gives_pure rfl
  · split_ifs
    · exact Reader.gives_bind fun _ => Reader.gives_pure rfl
    · exact Reader.gives_bind fun _ => Reader.gives_pure rfl
  · exact Reader.gives_bind fun _ => Reader.gives_pure rfl
  · exact Reader.gives_bind fun _ => Reader.gives_bind fun _ => Reader.gives_pure rfl
  · exact Reader.gives_bind fun _ => Reader.gives_pure rfl

theorem path_eq_or_lt_of_readColumn {entry next : FileEntry} {column : EntryColumn} {c d : Cursor}
    (h : readColumn layout entry column c = .ok (next, d)) :
    c ≤ d ∧ (next.path = entry.path ∨ c < d) := by
  obtain ⟨taken, hpasses, -⟩ := local_readColumn layout entry column h
  refine ⟨⟨taken, hpasses.rest, hpasses.offset⟩, ?_⟩
  by_cases hpath : ContentType.ofCode? column.contentType = some .path
  · rw [readColumn, hpath] at h
    obtain ⟨path, middle, hstring, h⟩ := Reader.bind_eq_ok.1 h
    cases h
    exact .inr (layout.consuming_string _ hstring)
  · exact .inl (path_of_readColumn layout entry hpath h)

/-- A file whose columns take no byte has no path. -/
theorem consuming_readFile (table : FileTable) (columns : List EntryColumn) :
    (table.readFile layout columns).Consuming := by
  intro c file d h
  obtain ⟨entry, middle, hcolumns, h⟩ := Reader.bind_eq_ok.1 h
  obtain ⟨path, last, hresolved, h⟩ := Reader.bind_eq_ok.1 h
  cases h
  obtain ⟨hpath, rfl⟩ := Reader.lift_except_eq_ok hresolved
  obtain ⟨-, hempty | hlt⟩ := Reader.eq_or_lt_of_foldlM FileEntry.path
    (path_eq_or_lt_of_readColumn layout) hcolumns
  · exact absurd hempty (Path.ne_of_resolveFile hpath)
  · exact hlt

/-! ### Reading the lists, with their loops counted -/

def readDirectoriesCounted (columns : List EntryColumn) (context : UnitContext) :
    CountedReader FileTable := do
  let compDir ← (liftM (optionalCompDir context.compDir) : Reader LineError String)
  let count ← (liftM Reader.uleb128 : Reader LineError UInt64)
  if count = 0 then
    (Reader.reject .noDirectories : Reader LineError FileTable)
  else
    let directories ← CountedReader.times (readDirectory layout compDir columns) count.toNat
    return { compDir, directories }

def readFilesCounted (table : FileTable) (columns : List EntryColumn) :
    CountedReader FileTable := do
  let count ← (liftM Reader.uleb128 : Reader LineError UInt64)
  if count = 0 then
    (Reader.reject .noFiles : Reader LineError FileTable)
  else
    let files ← CountedReader.times (table.readFile layout columns) count.toNat
    return { table with files }

def readLegacyCounted (context : UnitContext) : CountedReader FileTable := do
  let compDir ← (liftM (Path.normalizeDirectory context.compDir) : Reader LineError String)
  let names ← CountedReader.untilNone LegacyLists.directoryName LegacyLists.consuming_directoryName
  let directories ← (liftM (legacyDirectories compDir names) : Reader LineError (List String))
  let unitPath ← (liftM (Path.resolveFile compDir context.name) : Reader LineError String)
  let table : FileTable := { compDir, directories }
  let records ← CountedReader.untilNone LegacyLists.fileRecord LegacyLists.consuming_fileRecord
  let files ← (liftM (table.legacyFiles records) : Reader LineError (List FileEntry))
  return { table with files := { path := unitPath, directoryIndex := 0 } :: files }

end FileTable

namespace Header

def readDescribedCounted (layout : FormLayout) (context : UnitContext) :
    CountedReader (List EntryColumn × List EntryColumn × FileTable) := do
  let directoryFormat ← EntryColumn.readDirectoryFormat
  let table ← FileTable.readDirectoriesCounted layout directoryFormat context
  let fileFormat ← EntryColumn.readFileFormat
  let table ← FileTable.readFilesCounted layout table fileFormat
  return (directoryFormat, fileFormat, table)

def readListsCounted (prologue : HeaderPrologue) (order : ByteOrder) (context : UnitContext) :
    CountedReader (List EntryColumn × List EntryColumn × FileTable) := do
  if prologue.version = 5 then
    readDescribedCounted
      { order, format := prologue.format, addressSize := prologue.addressSize,
        strings := context.strings } context
  else
    return ([], [], ← FileTable.readLegacyCounted context)

/-- Reads the header of a unit and the files it begins with, and counts the loops over its
lists. -/
def readCounted (order : ByteOrder) (size : ℕ) (context : UnitContext) :
    CountedReader (Header × FileTable) := do
  let prologue ← HeaderPrologue.read order size context
  let parameters ← Parameters.read order prologue.version prologue.addressSize
  let counts ← readOperandCounts 1 (parameters.opcodeBase.toNat - 1)
  let (directoryFormat, fileFormat, table) ← readListsCounted prologue order context
  let header : Header :=
    { parameters with
      format := prologue.format
      unitLength := prologue.unitLength
      segmentSelectorSize := prologue.segmentSelectorSize
      headerLength := prologue.headerLength
      programOffset := prologue.programOffset
      operandCounts := 0 :: counts
      directoryFormat
      fileFormat }
  return (header, table)

end Header

namespace LineTable

def ofHeader (bytes : List UInt8) : (Header × FileTable) × Cursor → LineTable
  | ((header, files), last) =>
    { program := { header, bytes, tablesEnd := last.offset }, files }

/-- Reads the line table at an offset of the line section. Gives the loops over its lists too, the
directories first, whether the table is accepted or not. -/
def parseCounted (order : ByteOrder) (lines : List UInt8) (offset : ℕ) (context : UnitContext) :
    Except LineError LineTable × List ListLoop :=
  match unitBytes order lines offset with
  | .error e => (.error e, [])
  | .ok bytes =>
    let (result, loops) := Header.readCounted order bytes.length context (Cursor.start bytes) []
    (result.map (ofHeader bytes), loops)

theorem parse_of_unitBytes {order : ByteOrder} {lines : List UInt8} {offset : ℕ}
    (context : UnitContext) {bytes : List UInt8} (h : unitBytes order lines offset = .ok bytes) :
    parse order lines offset context =
      (Header.read order bytes.length context (Cursor.start bytes)).map (ofHeader bytes) := by
  rw [parse, h]
  change Except.bind (Header.read order bytes.length context (Cursor.start bytes)) _ = _
  cases Header.read order bytes.length context (Cursor.start bytes) <;> rfl

end LineTable

open CountedReader

namespace FileTable

variable (layout : FormLayout)

/-- The rounds of two loops that give the directories and the files of a table. -/
def Fits (table : FileTable) (rounds : List ℕ) : Prop :=
  rounds = [table.directories.length, table.files.length]

theorem counts_readDirectories (columns : List EntryColumn) (context : UnitContext) :
    (readDirectoriesCounted layout columns context).Counts (readDirectories layout columns context)
      fun table rounds => rounds = [table.directories.length] := by
  apply counts_except_bind
  intro compDir _
  apply counts_lift_bind Reader.local_uleb128.lift
  intro count
  split_ifs
  · exact counts_reject _
  · apply (counts_times (consuming_readDirectory layout compDir columns) _).bind
    intro directories
    apply counts_pure
    rintro _ rfl
    rfl

theorem counts_readFiles (table : FileTable) (columns : List EntryColumn) :
    (readFilesCounted layout table columns).Counts (readFiles layout table columns)
      fun final rounds =>
        rounds = [final.files.length] ∧ final.directories = table.directories := by
  apply counts_lift_bind Reader.local_uleb128.lift
  intro count
  split_ifs
  · exact counts_reject _
  · apply (counts_times (consuming_readFile layout table columns) _).bind
    intro files
    apply counts_pure
    rintro _ rfl
    exact ⟨rfl, rfl⟩

theorem length_of_legacyDirectories {compDir : String} {names directories : List String}
    (h : legacyDirectories compDir names = .ok directories) :
    directories.length = names.length + 1 := by
  obtain ⟨declared, hdeclared, hall⟩ := exists_of_bind_eq_ok h
  cases hall
  rw [List.length_cons, (forall₂_of_mapM_eq_ok hdeclared).length_eq]

theorem length_of_legacyFiles {table : FileTable} {records : List FileRecord}
    {files : List FileEntry} (h : table.legacyFiles records = .ok files) :
    files.length = records.length :=
  (forall₂_of_mapM_eq_ok h).length_eq.symm

/-- The end of each list is read in a round of its own, which stands for the entry of the list that
is not written down. -/
theorem counts_readLegacy (context : UnitContext) :
    (readLegacyCounted context).Counts (readLegacy context) Fits := by
  apply counts_except_bind
  intro compDir _
  apply (counts_untilNone LegacyLists.consuming_directoryName).bind
  intro names
  apply counts_except_bind
  intro directories hdirectories
  apply counts_except_bind
  intro unitPath _
  apply (counts_untilNone LegacyLists.consuming_fileRecord).bind
  intro records
  apply counts_except_bind
  intro files hfiles
  apply counts_pure
  rintro _ rfl _ rfl
  simp [Fits, length_of_legacyDirectories hdirectories, length_of_legacyFiles hfiles]

end FileTable

namespace Header

theorem counts_readDescribed (layout : FormLayout) (context : UnitContext) :
    (readDescribedCounted layout context).Counts (readDescribed layout context)
      fun (_, _, table) rounds => table.Fits rounds := by
  apply counts_lift_bind EntryColumn.local_readDirectoryFormat
  intro directoryFormat
  apply (FileTable.counts_readDirectories layout directoryFormat context).bind
  intro table
  apply counts_lift_bind EntryColumn.local_readFileFormat
  intro fileFormat
  apply (FileTable.counts_readFiles layout table fileFormat).bind
  intro final
  apply counts_pure
  rintro _ ⟨rfl, hsame⟩ _ rfl
  simp [FileTable.Fits, hsame]

theorem counts_readLists (prologue : HeaderPrologue) (order : ByteOrder) (context : UnitContext) :
    (readListsCounted prologue order context).Counts (readLists prologue order context)
      fun (_, _, table) rounds => table.Fits rounds := by
  unfold readListsCounted readLists
  split_ifs
  · exact counts_readDescribed _ context
  · apply (FileTable.counts_readLegacy context).bind
    intro table
    apply counts_pure
    intro rounds hrounds
    rwa [List.append_nil]

theorem counts_read (order : ByteOrder) (size : ℕ) (context : UnitContext) :
    (readCounted order size context).Counts (read order size context)
      fun (_, table) rounds => table.Fits rounds := by
  apply counts_lift_bind (HeaderPrologue.local_read order size context)
  intro prologue
  apply counts_lift_bind (Parameters.local_read order _ _)
  intro parameters
  apply counts_lift_bind (local_readOperandCounts 1 _)
  intro counts
  apply (counts_readLists prologue order context).bind
  intro lists
  apply counts_pure
  intro rounds hrounds
  rwa [List.append_nil]

end Header

/-- Whatever stands in the line section, reading a table does the same with its loops counted, and
each loop over a list of directories or files begins at most one round more than there are bytes
left in the unit. An accepted table took a round for each directory and each file, and has no more
of them than the unit has bytes. -/
theorem LineTable.list_loops_bounded (order : ByteOrder) (lines : List UInt8) (offset : ℕ)
    (context : UnitContext) :
    (parseCounted order lines offset context).1 = parse order lines offset context ∧
    (∀ loop ∈ (parseCounted order lines offset context).2, loop.rounds ≤ loop.left + 1) ∧
    ∀ table, parse order lines offset context = .ok table →
      (parseCounted order lines offset context).2.map (·.rounds) =
        [table.files.directories.length, table.files.files.length] ∧
      table.files.directories.length + table.files.files.length ≤ table.size := by
  unfold parseCounted
  cases hunit : unitBytes order lines offset with
  | error e =>
    rw [parse, hunit]
    exact ⟨rfl, nofun, nofun⟩
  | ok bytes =>
    obtain ⟨loops, hvalue, hbound, hfits⟩ :=
      Header.counts_read order bytes.length context (Cursor.start bytes) []
    dsimp only
    rw [hvalue, parse_of_unitBytes context hunit]
    refine ⟨rfl, hbound, ?_⟩
    intro table htable
    obtain ⟨⟨⟨header, files⟩, last⟩, hread, rfl⟩ := exists_of_map_eq_ok htable
    obtain ⟨hrounds, hbytes⟩ := hfits (header, files) last hread
    refine ⟨hrounds, ?_⟩
    rw [hrounds] at hbytes
    simp only [List.sum_cons, List.sum_nil, Cursor.start] at hbytes
    simp only [ofHeader, size, LineProgram.size]
    omega

/-- A directory, and two files with a column that takes no byte in front of the path. -/
theorem LineTable.list_loops_bounded_of_narrow_columns :
    ∃ table, parse .little
        [31, 0, 0, 0, 5, 0, 8, 0, 23, 0, 0, 0, 1, 1, 1, 0, 1, 1, 1, 1, 8, 1, 100, 0,
          2, 0x81, 0x40, 25, 1, 8, 2, 102, 0, 103, 0] 0 { compDir := "/", name := "" } =
        .ok table ∧
      table.files.directories.length = 1 ∧ table.files.files.length = 2 ∧
      (parseCounted .little
        [31, 0, 0, 0, 5, 0, 8, 0, 23, 0, 0, 0, 1, 1, 1, 0, 1, 1, 1, 1, 8, 1, 100, 0,
          2, 0x81, 0x40, 25, 1, 8, 2, 102, 0, 103, 0] 0 { compDir := "/", name := "" }).2.map
          (·.rounds) = [1, 2] ∧
      table.files.directories.length + table.files.files.length ≤ table.size := by
  have hknown : (parse .little
        [31, 0, 0, 0, 5, 0, 8, 0, 23, 0, 0, 0, 1, 1, 1, 0, 1, 1, 1, 1, 8, 1, 100, 0,
          2, 0x81, 0x40, 25, 1, 8, 2, 102, 0, 103, 0] 0 { compDir := "/", name := "" }).map
      (fun table => decide (table.files.directories.length = 1 ∧
        table.files.files.length = 2)) = .ok true := by
    decide +kernel
  obtain ⟨table, hparse, hfacts⟩ := exists_of_map_eq_ok hknown
  obtain ⟨hdirectories, hfiles⟩ := of_decide_eq_true hfacts
  obtain ⟨-, -, hbounded⟩ := list_loops_bounded .little
    [31, 0, 0, 0, 5, 0, 8, 0, 23, 0, 0, 0, 1, 1, 1, 0, 1, 1, 1, 1, 8, 1, 100, 0,
      2, 0x81, 0x40, 25, 1, 8, 2, 102, 0, 103, 0] 0 { compDir := "/", name := "" }
  obtain ⟨hrounds, hsize⟩ := hbounded table hparse
  rw [hdirectories, hfiles] at hrounds
  exact ⟨table, hparse, hdirectories, hfiles, hrounds, hsize⟩

/-- Files of which nothing is stored, and the largest number of them. The first has no path, and
the loop ends with it. -/
example : LineTable.parseCounted .little
    [34, 0, 0, 0, 5, 0, 8, 0, 26, 0, 0, 0, 1, 1, 1, 0, 1, 1, 1, 1, 8, 1, 100, 0,
      1, 0x81, 0x40, 25, 255, 255, 255, 255, 255, 255, 255, 255, 255, 1] 0
    { compDir := "/", name := "" } =
      (.error (.format .emptyFile), [⟨16, 1⟩, ⟨0, 1⟩]) := by
  decide +kernel

end DwarfLines
