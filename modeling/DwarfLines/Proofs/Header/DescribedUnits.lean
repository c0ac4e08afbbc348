import Mathlib
import DwarfLines.Proofs.Files.DescribedReading
import DwarfLines.Proofs.Header.UnitReading

/-!
# Units of version 5

A unit whose lists are described by columns is accepted, and its directories and files are those
that the lists say. Every record takes at least one byte, so a count never exceeds the size of the
unit.
-/

namespace DwarfLines

theorem Leb128.unsignedBytes_ne_nil (n : ℕ) : unsignedBytes n ≠ [] := by
  unfold unsignedBytes
  split_ifs <;> simp

theorem ByteOrder.bytes_ne_nil (order : ByteOrder) {width : ℕ} (h : 0 < width) (n : ℕ) :
    order.bytes width n ≠ [] := by
  apply List.ne_nil_of_length_pos
  rwa [ByteOrder.length_bytes]

theorem DwarfFormat.wordSize_pos (format : DwarfFormat) : 0 < format.wordSize := by
  cases format <;> decide

/-- Records that are not empty are not more than their bytes. -/
theorem length_le_of_ne_nil {records : List (List UInt8)} (h : ∀ record ∈ records, record ≠ []) :
    records.length ≤ records.flatten.length := by
  rw [List.length_flatten]
  refine le_of_eq_of_le (List.length_map _).symm (List.length_le_sum_of_one_le _ ?_)
  intro count hcount
  obtain ⟨record, hrecord, rfl⟩ := List.mem_map.mp hcount
  exact List.length_pos_of_ne_nil (h record hrecord)

theorem eq_map_of_forall₂ {α β : Type} {f : α → β} {sources : List α} {found : List β}
    (h : List.Forall₂ (fun a b => b = f a) sources found) : found = sources.map f := by
  induction h with
  | nil => rfl
  | cons hab _ ih => rw [hab, ih, List.map_cons]

theorem reads_counted {ε α σ : Type} {item : Reader ε α} {Known : σ → α → Prop}
    {unit : List UInt8} {sources : List σ} {records : List (List (List UInt8))}
    (h : List.Forall₂ (fun source record => record.flatten ≠ [] ∧
      ∀ offset, record.flatten <+: unit.drop offset →
        ∃ a, item.Reads offset record.flatten a ∧ Known source a) sources records)
    (hne : sources ≠ []) (hlength : unit.length < 2 ^ 64) {offset : ℕ}
    (hunit : Leb128.unsignedBytes records.length ++ records.flatMap List.flatten <+:
      unit.drop offset) :
    ∃ found, List.Forall₂ Known sources found ∧ UInt64.ofNat records.length ≠ 0 ∧
      Reader.uleb128.Reads offset (Leb128.unsignedBytes records.length)
        (UInt64.ofNat records.length) ∧
      (Reader.times item (UInt64.ofNat records.length).toNat).Reads
        (offset + (Leb128.unsignedBytes records.length).length)
        (records.flatMap List.flatten) found := by
  have hitems : List.Forall₂ (fun source bytes => ∀ offset, bytes <+: unit.drop offset →
      ∃ a, item.Reads offset bytes a ∧ Known source a) sources (records.map List.flatten) := by
    rw [List.forall₂_map_right_iff]
    exact h.imp fun _ _ hitem => hitem.2
  have hrecords : ∀ bytes ∈ records.map List.flatten, bytes ≠ [] := by
    intro bytes hbytes
    obtain ⟨record, hrecord, rfl⟩ := List.mem_map.mp hbytes
    obtain ⟨i, hi, rfl⟩ := List.getElem_of_mem hrecord
    exact (h.get (h.length_eq ▸ hi) hi).1
  have hmore := (Reader.prefix_drop_append hunit).2
  have hcount : records.length < 2 ^ 64 := by
    have hle := length_le_of_ne_nil hrecords
    have hfits := hmore.length_le
    rw [List.flatMap_def] at hfits
    rw [List.length_map] at hle
    rw [List.length_drop] at hfits
    omega
  have hword : (UInt64.ofNat records.length).toNat = records.length := by simpa using hcount
  rw [List.flatMap_def] at hmore
  obtain ⟨found, hreads, hknown⟩ := Reader.reads_times hitems hmore
  refine ⟨found, hknown, ?_, Reader.reads_uleb128_ofNat offset hcount, ?_⟩
  · intro hzero
    rw [hzero] at hword
    have hpos := List.length_pos_of_ne_nil hne
    rw [h.length_eq] at hpos
    exact hpos.ne hword
  · rw [hword, List.flatMap_def]
    rwa [List.length_map] at hreads

namespace FormLayout

variable {layout : FormLayout}

theorem WritesString.ne_nil {form : Form} {text : String} {bytes : List UInt8}
    (h : layout.WritesString form text bytes) : bytes ≠ [] := by
  have hword (n : ℕ) := layout.order.bytes_ne_nil layout.format.wordSize_pos n
  cases h with
  | inline => simp
  | strp => exact hword _
  | lineStrp => exact hword _
  | strpSup => exact hword _
  | strx => exact Leb128.unsignedBytes_ne_nil _
  | strx1 => exact layout.order.bytes_ne_nil (by decide) _
  | strx2 => exact layout.order.bytes_ne_nil (by decide) _
  | strx4 => exact layout.order.bytes_ne_nil (by decide) _

theorem WritesString.isPathForm {form : Form} {text : String} {bytes : List UInt8}
    (h : layout.WritesString form text bytes) : EntryColumn.isPathForm form.code = true := by
  cases h <;> rfl

theorem WritesNumber.ne_nil {form : Form} {n : UInt64} {bytes : List UInt8}
    (h : layout.WritesNumber form n bytes) : bytes ≠ [] := by
  cases h with
  | udata => exact Leb128.unsignedBytes_ne_nil _
  | _ => exact layout.order.bytes_ne_nil (by decide) _

end FormLayout

theorem FileValues.Writes.ne_nil {layout : FormLayout} {values : FileValues}
    {column : EntryColumn} {bytes : List UInt8} (h : values.Writes layout column bytes) :
    bytes ≠ [] := by
  cases h with
  | path hstring => exact hstring.ne_nil
  | directoryIndex hnumber => exact hnumber.ne_nil
  | timestamp hnumber => exact hnumber.ne_nil
  | timestampBlock => exact List.append_ne_nil_of_left_ne_nil (Leb128.unsignedBytes_ne_nil _) _
  | size hnumber => exact hnumber.ne_nil
  | md5 hlength => exact List.ne_nil_of_length_pos (by omega)

theorem FileValues.flatten_ne_nil {layout : FormLayout} {values : FileValues}
    {columns : List EntryColumn} {record : List (List UInt8)}
    (h : List.Forall₂ (values.Writes layout) columns record) (hne : columns ≠ []) :
    record.flatten ≠ [] := by
  cases h with
  | nil => exact absurd rfl hne
  | cons hcolumn _ =>
    rw [List.flatten_cons]
    exact List.append_ne_nil_of_left_ne_nil hcolumn.ne_nil _

/-- What the lists of a unit say: directories whose paths are written in one form, and files
described by columns that hold different things, a path among them. -/
structure DescribedDeclarations.Say (declared : DescribedDeclarations) (layout : FormLayout)
    (form : Form) (directories : List String) (files : List FileValues) : Prop where
  directoryColumns : declared.directories.columns = [⟨ContentType.path.code, form.code⟩]
  directoryRecords : List.Forall₂
    (fun name record => ∃ bytes, record = [bytes] ∧ layout.WritesString form name bytes)
    directories declared.directories.records
  directories_ne_nil : directories ≠ []
  directory_ne_empty : ∀ name ∈ directories, name ≠ ""
  distinct : (declared.files.columns.map (·.contentType)).Nodup
  hasPath : declared.files.columns.any (·.holds .path) = true
  allowed : ∀ column ∈ declared.files.columns, column.isAllowed = true
  fileRecords : List.Forall₂
    (fun values record => List.Forall₂ (values.Writes layout) declared.files.columns record)
    files declared.files.records
  files_ne_nil : files ≠ []

namespace DescribedDeclarations.Say

variable {declared : DescribedDeclarations} {layout : FormLayout} {form : Form}
  {directories : List String} {files : List FileValues}

/-- A value of every column stands in some record. -/
theorem exists_writes (h : declared.Say layout form directories files) {column : EntryColumn}
    (hcolumn : column ∈ declared.files.columns) :
    ∃ values : FileValues, ∃ bytes, values.Writes layout column bytes := by
  have hpos := List.length_pos_of_ne_nil h.files_ne_nil
  have hrecord := h.fileRecords.get hpos (h.fileRecords.length_eq ▸ hpos)
  obtain ⟨i, hi, rfl⟩ := List.getElem_of_mem hcolumn
  exact ⟨_, _, hrecord.get hi (hrecord.length_eq ▸ hi)⟩

theorem length_columns_lt (h : declared.Say layout form directories files) :
    declared.files.columns.length < 256 := by
  have hsubset : declared.files.columns.map (·.contentType) ⊆ [1, 2, 3, 4, 5] := by
    intro code hcode
    obtain ⟨column, hcolumn, rfl⟩ := List.mem_map.mp hcode
    obtain ⟨values, bytes, hw⟩ := h.exists_writes hcolumn
    cases hw <;> simp [ContentType.code]
  have hle := (h.distinct.subperm hsubset).length_le
  rw [List.length_map] at hle
  exact hle.trans_lt (by decide)

theorem columns_ne_nil (h : declared.Say layout form directories files) :
    declared.files.columns ≠ [] := by
  intro hnil
  have hpath := h.hasPath
  rw [hnil] at hpath
  cases hpath

theorem reads_directory {name : String} {bytes : List UInt8}
    (hw : layout.WritesString form name bytes) (hname : name ≠ "") (compDir : String)
    (offset : ℕ) :
    (FileTable.readDirectory layout compDir [⟨ContentType.path.code, form.code⟩]).Reads offset
      bytes (Path.below compDir name) := by
  unfold FileTable.readDirectory
  rw [List.foldlM_cons]
  apply ((FormLayout.reads_string hw offset).bind_nil (Reader.reads_pure _ _)).bind_nil
  rw [Path.resolveDirectory_eq compDir hname]
  exact Reader.reads_lift_ok _ _

theorem reads_directories (h : declared.Say layout form directories files)
    (context : UnitContext) {unit : List UInt8} (hlength : unit.length < 2 ^ 64) {offset : ℕ}
    (hunit : Leb128.unsignedBytes declared.directories.records.length ++
      declared.directories.records.flatMap List.flatten <+: unit.drop offset) :
    (FileTable.readDirectories layout declared.directories.columns context).Reads offset
      (Leb128.unsignedBytes declared.directories.records.length ++
        declared.directories.records.flatMap List.flatten)
      { compDir := FileTable.knownCompDir context.compDir
        directories :=
          directories.map (Path.below (FileTable.knownCompDir context.compDir)) } := by
  have hitems : List.Forall₂ (fun name record => record.flatten ≠ [] ∧
      ∀ offset, record.flatten <+: unit.drop offset → ∃ directory,
        (FileTable.readDirectory layout (FileTable.knownCompDir context.compDir)
          declared.directories.columns).Reads offset record.flatten directory ∧
        directory = Path.below (FileTable.knownCompDir context.compDir) name)
      directories declared.directories.records := by
    refine (List.forall₂_and_left _ _).mpr ⟨h.directory_ne_empty, h.directoryRecords⟩ |>.imp ?_
    rintro name record ⟨hname, bytes, rfl, hw⟩
    rw [List.flatten_singleton, h.directoryColumns]
    exact ⟨hw.ne_nil, fun offset _ => ⟨_, reads_directory hw hname _ offset, rfl⟩⟩
  obtain ⟨found, hknown, hnonzero, hcount, hreads⟩ :=
    reads_counted hitems h.directories_ne_nil hlength hunit
  obtain rfl := eq_map_of_forall₂ hknown
  unfold FileTable.readDirectories
  rw [FileTable.optionalCompDir_eq]
  apply (Reader.reads_lift_ok _ _).nil_bind
  apply hcount.lift.bind
  simp only [hnonzero, if_false]
  exact hreads.bind_pure _

theorem reads_files (h : declared.Say layout form directories files)
    (hnames : ∀ values ∈ files, values.path ≠ "") (table : FileTable)
    {unit : List UInt8} (hlength : unit.length < 2 ^ 64) {offset : ℕ}
    (hunit : Leb128.unsignedBytes declared.files.records.length ++
      declared.files.records.flatMap List.flatten <+: unit.drop offset) :
    ∃ entries, (FileTable.readFiles layout table declared.files.columns).Reads offset
        (Leb128.unsignedBytes declared.files.records.length ++
          declared.files.records.flatMap List.flatten)
        { table with files := entries } ∧
      List.Forall₂ (fun values entry =>
        FileValues.Describes values unit table declared.files.columns entry) files entries := by
  have hitems : List.Forall₂ (fun values record => record.flatten ≠ [] ∧
      ∀ offset, record.flatten <+: unit.drop offset → ∃ entry,
        (table.readFile layout declared.files.columns).Reads offset record.flatten entry ∧
        FileValues.Describes values unit table declared.files.columns entry)
      files declared.files.records := by
    refine (List.forall₂_and_left _ _).mpr ⟨hnames, h.fileRecords⟩ |>.imp ?_
    rintro values record ⟨hname, hw⟩
    exact ⟨FileValues.flatten_ne_nil hw h.columns_ne_nil,
      fun offset hrecord => FileValues.reads_file h.hasPath hname hw hrecord⟩
  obtain ⟨found, hknown, hnonzero, hcount, hreads⟩ :=
    reads_counted hitems h.files_ne_nil hlength hunit
  refine ⟨found, ?_, hknown⟩
  unfold FileTable.readFiles
  apply hcount.lift.bind
  simp only [hnonzero, if_false]
  exact hreads.bind_pure _

/-- The lists are read back, each with its columns. -/
theorem reads_lists (h : declared.Say layout form directories files)
    (hnames : ∀ values ∈ files, values.path ≠ "") (context : UnitContext)
    {unit : List UInt8} (hlength : unit.length < 2 ^ 64) {offset : ℕ}
    (hunit : declared.bytes <+: unit.drop offset) :
    ∃ table : FileTable, (Header.readDescribed layout context).Reads offset declared.bytes
        (declared.directories.columns, declared.files.columns, table) ∧
      table.compDir = FileTable.knownCompDir context.compDir ∧
      table.directories = directories.map (Path.below (FileTable.knownCompDir context.compDir)) ∧
      List.Forall₂ (fun values entry =>
        FileValues.Describes values unit table declared.files.columns entry)
        files table.files := by
  have hform : EntryColumn.isPathForm form.code = true := by
    have hpos := List.length_pos_of_ne_nil h.directories_ne_nil
    obtain ⟨bytes, -, hw⟩ := h.directoryRecords.get hpos (h.directoryRecords.length_eq ▸ hpos)
    exact hw.isPathForm
  have hdirectoryFormat : EntryColumn.readDirectoryFormat.Reads offset
      (1 :: (⟨ContentType.path.code, form.code⟩ : EntryColumn).bytes)
      [⟨ContentType.path.code, form.code⟩] :=
    EntryColumn.reads_directoryFormat rfl hform offset
  have hbytes : declared.bytes =
      (1 :: (⟨ContentType.path.code, form.code⟩ : EntryColumn).bytes) ++
        ((Leb128.unsignedBytes declared.directories.records.length ++
          declared.directories.records.flatMap List.flatten) ++
        ((UInt8.ofNat declared.files.columns.length ::
          declared.files.columns.flatMap EntryColumn.bytes) ++
        (Leb128.unsignedBytes declared.files.records.length ++
          declared.files.records.flatMap List.flatten))) := by
    simp [DescribedDeclarations.bytes, DescribedRecords.bytes, h.directoryColumns]
  rw [hbytes] at hunit ⊢
  obtain ⟨-, hunit⟩ := Reader.prefix_drop_append hunit
  obtain ⟨hdirectories, hunit⟩ := Reader.prefix_drop_append hunit
  obtain ⟨-, hfiles⟩ := Reader.prefix_drop_append hunit
  obtain ⟨entries, hread, hentries⟩ := h.reads_files hnames
    { compDir := FileTable.knownCompDir context.compDir
      directories := directories.map (Path.below (FileTable.knownCompDir context.compDir)) }
    hlength hfiles
  refine ⟨{ compDir := FileTable.knownCompDir context.compDir
            directories := directories.map (Path.below (FileTable.knownCompDir context.compDir))
            files := entries }, ?_, rfl, rfl, hentries.imp fun _ _ hentry => ?_⟩
  · unfold Header.readDescribed
    apply hdirectoryFormat.bind
    rw [← h.directoryColumns]
    apply (h.reads_directories context hlength hdirectories).bind
    apply (EntryColumn.reads_fileFormat h.columns_ne_nil h.length_columns_lt h.allowed _).bind
    exact hread.bind_pure _
  · exact ⟨hentry.toFill, hentry.path⟩

end DescribedDeclarations.Say

/-- The digest of a file is read where the unit has it. -/
theorem LineTable.digest_of_isPrefix {table : LineTable} {entry : FileEntry} {offset : ℕ}
    (hentry : entry.md5Offset = some offset) {digest : List UInt8} (hlength : digest.length = 16)
    (hdigest : digest <+: table.program.bytes.drop offset) :
    table.digest entry = .ok (some digest) := by
  obtain ⟨rest, hrest⟩ := hdigest
  have hle : offset ≤ table.program.bytes.length := by
    have hdrop := congrArg List.length hrest
    rw [List.length_append, List.length_drop] at hdrop
    omega
  have hat := Reader.at?_eq_ok.2 ⟨hle, rfl⟩
  have htake := Reader.reads_take offset digest rest
  rw [← hrest] at hat
  rw [hlength] at htake
  unfold LineTable.digest
  rw [hentry]
  change LineError.ofRead (Cursor.at? table.program.bytes offset >>= _) = _
  rw [hat]
  change LineError.ofRead (Reader.take 16 ⟨offset, digest ++ rest⟩ >>= _) = _
  rw [htake]
  rfl

namespace UnitLayout

/-- How the forms of a version 5 unit are laid out. -/
def formLayout (layout : UnitLayout) (strings : StringSections) : FormLayout where
  order := layout.order
  format := layout.format
  addressSize := layout.addressSize
  strings := strings

variable {layout : UnitLayout}

theorem tables_isPrefix : layout.tables <+: layout.bytes.drop layout.tablesOffset := by
  have hplace : layout.tablesOffset = (layout.prologueBytes ++ layout.scalarBytes).length := by
    rw [List.length_append, length_prologueBytes, tablesOffset]
  have hbytes : layout.bytes = (layout.prologueBytes ++ layout.scalarBytes) ++
      (layout.tables ++ (layout.gap ++ layout.program)) := by
    simp [bytes_eq, countedBytes]
  rw [hplace, hbytes, List.drop_left]
  exact List.prefix_append _ _

theorem readLists_eq {context : UnitContext} (hversion : layout.version = 5) :
    Header.readLists (layout.prologue context.addressSize) layout.order context =
      Header.readDescribed (layout.formLayout context.strings) context := by
  have hsize : (layout.parameters context.addressSize).addressSize = layout.addressSize :=
    if_pos hversion
  unfold Header.readLists
  rw [prologue, hsize]
  simp only [hversion, if_true]
  rfl

end UnitLayout

/-- A unit of version 5 is accepted, and has the directories and files that its lists say. -/
theorem LineTable.parse_described {layout : UnitLayout} {context : UnitContext}
    {declared : DescribedDeclarations} {form : Form} {directories : List String}
    {files : List FileValues} (hversion : layout.version = 5)
    (hwell : layout.isWellFormed = true) (hfits : layout.fits = true)
    (hlength : layout.bytes.length < 2 ^ 64) (htables : layout.tables = declared.bytes)
    (hsay : declared.Say (layout.formLayout context.strings) form directories files)
    (hnames : ∀ values ∈ files, values.path ≠ "") (before after : List UInt8) :
    ∃ table, parse layout.order (before ++ layout.bytes ++ after) before.length context =
        .ok table ∧
      table.program.header = layout.header context.addressSize declared.directories.columns
        declared.files.columns ∧
      table.files.directories =
        directories.map (Path.below (FileTable.knownCompDir context.compDir)) ∧
      List.Forall₂ (fun values entry =>
        let columns := declared.files.columns
        entry.path = Path.inside (table.files.directoryAt entry.directoryIndex) values.path ∧
        entry.directoryIndex =
          (if columns.any (·.holds .directoryIndex) then values.directoryIndex else 0) ∧
        entry.timestamp = (if columns.any (·.tellsTime) then some values.timestamp else none) ∧
        entry.size = (if columns.any (·.holds .size) then some values.size else none) ∧
        table.digest entry =
          .ok (if columns.any (·.holds .md5) then some values.digest else none))
        files table.files.files := by
  have hunit : declared.bytes <+: layout.bytes.drop layout.tablesOffset :=
    htables ▸ UnitLayout.tables_isPrefix
  obtain ⟨lists, hread, -, hdirectories, hfiles⟩ := hsay.reads_lists hnames context hlength hunit
  rw [← UnitLayout.readLists_eq hversion, ← htables] at hread
  refine ⟨_, UnitLayout.parse_eq (UnitLayout.wellFormed_of_isWellFormed hwell) hfits hlength
    context hread before after, rfl, hdirectories, hfiles.imp fun values entry hentry => ?_⟩
  refine ⟨hentry.path, hentry.directoryIndex, hentry.timestamp, hentry.size, ?_⟩
  have hhas := hentry.hasDigest
  cases hplace : entry.md5Offset with
  | none =>
    rw [hplace] at hhas
    rw [digest, hplace, ← hhas]
    rfl
  | some offset =>
    rw [hplace] at hhas
    have hdigest := hentry.digestAt offset hplace
    rw [digest_of_isPrefix hplace hdigest.length hdigest.bytes, ← hhas]
    rfl

/-- A unit that is as it should be except that a file has no name is refused. -/
theorem LineTable.parse_described_unnamed :
    ∃ (layout : UnitLayout) (declared : DescribedDeclarations) (form : Form)
      (directories : List String) (files : List FileValues),
      layout.version = 5 ∧ layout.isWellFormed = true ∧ layout.fits = true ∧
      layout.bytes.length < 2 ^ 64 ∧ layout.tables = declared.bytes ∧
      declared.Say (layout.formLayout {}) form directories files ∧
      parse layout.order layout.bytes 0 {} = .error (.format .emptyFile) := by
  refine ⟨
    { order := .little, format := .dwarf32, version := 5, addressSize := 8
      segmentSelectorSize := 0, minimumInstructionLength := 1, maximumOperations := 1
      defaultIsStmt := 1, lineBase := 0, lineRange := 1, opcodeBase := 1, operandCounts := []
      tables := [1, 1, 8, 1, 100, 0, 1, 1, 8, 1, 0], gap := [], program := [] },
    { directories := { columns := [⟨1, 8⟩], records := [[[100, 0]]] }
      files := { columns := [⟨1, 8⟩], records := [[[0]]] } },
    .string, ["d"], [{ path := "" }],
    rfl, by decide +kernel, by decide +kernel, by decide +kernel, by decide +kernel, ?_,
    by decide +kernel⟩
  exact
    { directoryColumns := rfl
      directoryRecords := .cons ⟨_, rfl, .inline (by decide)⟩ .nil
      directories_ne_nil := by simp
      directory_ne_empty := by simp
      distinct := by decide
      hasPath := by decide
      allowed := by decide
      fileRecords := .cons (.cons (.path (.inline (by decide))) .nil) .nil
      files_ne_nil := by simp }

/-- A relative file whose directory column comes first, in a relative directory. -/
theorem LineTable.parse_described_relative :
    ∃ table, LineTable.parse .little
        [29, 0, 0, 0, 5, 0, 8, 0, 21, 0, 0, 0, 1, 1, 1, 0, 1, 1,
          1, 1, 8, 1, 100, 0, 2, 2, 11, 1, 8, 1, 0, 97, 0] 0 { compDir := "c" } = .ok table ∧
      table.files.directories = ["c/d/"] ∧ table.files.files.map (·.path) = ["c/d/a"] := by
  obtain ⟨table, hparse, -, hdirectories, hfiles⟩ := @LineTable.parse_described
      { order := .little, format := .dwarf32, version := 5, addressSize := 8
        segmentSelectorSize := 0, minimumInstructionLength := 1, maximumOperations := 1
        defaultIsStmt := 1, lineBase := 0, lineRange := 1, opcodeBase := 1, operandCounts := []
        tables := [1, 1, 8, 1, 100, 0, 2, 2, 11, 1, 8, 1, 0, 97, 0], gap := [], program := [] }
      { compDir := "c" }
      { directories := { columns := [⟨1, 8⟩], records := [[[100, 0]]] }
        files := { columns := [⟨2, 11⟩, ⟨1, 8⟩], records := [[[0], [97, 0]]] } }
      .string ["d"] [{ path := "a" }]
    rfl (by decide +kernel) (by decide +kernel) (by decide +kernel) (by decide +kernel)
    { directoryColumns := rfl
      directoryRecords := .cons ⟨_, rfl, .inline (by decide)⟩ .nil
      directories_ne_nil := by simp
      directory_ne_empty := by simp
      distinct := by decide
      hasPath := by decide
      allowed := by decide
      fileRecords := .cons (.cons (.directoryIndex (.data1 (by decide)))
        (.cons (.path (.inline (by decide))) .nil)) .nil
      files_ne_nil := by simp } (by simp) [] []
  have hone : table.files.directories = ["c/d/"] := by
    rw [hdirectories]
    decide +kernel
  refine ⟨table, ?_, hone, ?_⟩
  · refine Eq.trans ?_ hparse
    decide +kernel
  · obtain ⟨entry, rest, hentry, hrest, hall⟩ := List.forall₂_cons_left_iff.mp hfiles
    obtain rfl := List.forall₂_nil_left_iff.mp hrest
    obtain ⟨hpath, hindex, -⟩ := hentry
    rw [hall, List.map_singleton, hpath, hindex, FileTable.directoryAt, hone]
    change [Path.inside "c/d/" "a"] = ["c/d/a"]
    decide +kernel

end DwarfLines
