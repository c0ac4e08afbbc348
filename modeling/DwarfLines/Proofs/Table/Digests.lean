import Mathlib
import DwarfLines.Proofs.Header.DeclaredLists
import DwarfLines.Proofs.Table.LateRecords
import DwarfLines.Proofs.Table.WidenedUnits

/-!
# Digests that stay readable

A file remembers where in the unit its digest stands, and the bytes are read there when they are
asked for. In version 5 this is a cell of the file's own record: whatever is done with the table,
what is read are the bytes of the last cell in a column for digests. Other versions have no such
columns, and what a program declares has no digest, so these files never remember a place.
-/

namespace DwarfLines

namespace EntryColumn

variable {layout : FormLayout} {column : EntryColumn} {columns : List EntryColumn}

theorem holds_iff {known : ContentType} :
    column.holds known = true ↔ ContentType.ofCode? column.contentType = some known := by
  rw [holds, beq_iff_eq]
  constructor
  · intro htype
    rw [htype, ContentType.ofCode?_code]
  · intro htype
    exact (ContentType.code_of_ofCode? htype).symm

theorem gives_of_not_md5 (hmd5 : column.holds .md5 = false) (entry : FileEntry) :
    (FileTable.readColumn layout entry column).Gives fun next =>
      next.md5Offset = entry.md5Offset := by
  unfold FileTable.readColumn
  split
  case h_3 =>
    split_ifs
    · exact Reader.gives_bind fun _ => Reader.gives_pure rfl
    · exact Reader.gives_bind fun _ => Reader.gives_pure rfl
  case h_5 htype =>
    rw [holds_iff.mpr htype] at hmd5
    cases hmd5
  all_goals exact Reader.gives_bind fun _ => Reader.gives_pure rfl

theorem gives_of_md5 (hmd5 : column.holds .md5 = true) (entry : FileEntry) :
    (FileTable.readColumn layout entry column).Gives fun next => next.md5Offset.isSome = true := by
  unfold FileTable.readColumn
  rw [holds_iff.mp hmd5]
  apply Reader.gives_bind
  intro offset
  apply Reader.gives_bind
  intro _
  exact Reader.gives_pure rfl

/-- A cell is a digest if its column is for digests. -/
theorem Holds.digest_iff {cell : Cell} (h : column.Holds layout cell) :
    cell.value = .digest ↔ column.holds .md5 = true := by
  have hread := h.reads { path := "", directoryIndex := 0 } 0 []
  cases hmd5 : column.holds .md5 with
  | true =>
    have hplace := gives_of_md5 hmd5 _ hread
    cases hvalue : cell.value <;> simp_all [ColumnValue.fill]
  | false =>
    have hplace := gives_of_not_md5 hmd5 _ hread
    cases hvalue : cell.value <;> simp_all [ColumnValue.fill]

end EntryColumn

namespace FileContents

variable {layout : FormLayout} {columns : List EntryColumn} {record : List Cell}

/-- The bytes of a record's last cell in a column for digests. -/
def lastDigest (columns : List EntryColumn) (record : List Cell) : Option (List UInt8) :=
  ((columns.zip record).reverse.find? (·.1.holds .md5)).map (·.2.bytes)

theorem lastDigest_cons (column : EntryColumn) (cell : Cell) :
    lastDigest (column :: columns) (cell :: record) =
      (lastDigest columns record).or (if column.holds .md5 then some cell.bytes else none) := by
  rw [lastDigest, List.zip_cons_cons, List.reverse_cons, List.find?_append, Option.map_or]
  split_ifs with hmd5 <;> simp [lastDigest, hmd5]

theorem digest_add {column : EntryColumn} {cell : Cell} (h : column.Holds layout cell)
    (contents : FileContents) :
    (contents.add cell).digest = if column.holds .md5 then some cell.bytes else contents.digest := by
  by_cases hvalue : cell.value = .digest
  · rw [if_pos (h.digest_iff.mp hvalue), add, hvalue]
  · rw [if_neg (fun hmd5 => hvalue (h.digest_iff.mpr hmd5))]
    unfold add
    split <;> simp_all

/-- What a record says of the digest is its last one. -/
theorem digest_foldl_add (h : List.Forall₂ (EntryColumn.Holds layout) columns record)
    (contents : FileContents) :
    (record.foldl add contents).digest = (lastDigest columns record).or contents.digest := by
  induction h generalizing contents with
  | nil => rfl
  | @cons column cell columns record hcell hrest ih =>
    rw [List.foldl_cons, ih, digest_add hcell, lastDigest_cons, Option.or_assoc]
    split_ifs <;> simp

theorem digest_of (h : List.Forall₂ (EntryColumn.Holds layout) columns record) :
    (of record).digest = lastDigest columns record := by
  rw [of, digest_foldl_add h, Option.or_none]

theorem isSome_lastDigest (h : List.Forall₂ (EntryColumn.Holds layout) columns record) :
    (lastDigest columns record).isSome = columns.any (·.holds .md5) := by
  induction h with
  | nil => rfl
  | @cons column cell columns record hcell hrest ih =>
    rw [lastDigest_cons, List.any_cons, Option.isSome_or, ih, Bool.or_comm]
    split_ifs with hmd5
    · rw [hmd5, Option.isSome_some]
    · rw [Bool.eq_false_of_not_eq_true hmd5, Option.isSome_none]

theorem length_of_lastDigest (h : List.Forall₂ (EntryColumn.Holds layout) columns record) :
    ∀ digest ∈ lastDigest columns record, digest.length = 16 := by
  induction h with
  | nil => simp [lastDigest]
  | @cons column cell columns record hcell hrest ih =>
    intro digest hdigest
    rw [lastDigest_cons, Option.mem_def, Option.or_eq_some_iff] at hdigest
    rcases hdigest with hlater | ⟨-, hfirst⟩
    · exact ih digest hlater
    · split_ifs at hfirst with hmd5
      cases hfirst
      exact hcell.digest (hcell.digest_iff.mpr hmd5)

end FileContents

namespace FileTable

variable {table grown : FileTable} {parameters : Parameters} {c : Cursor} {records : List FileRecord}

theorem GrownBy.md5Offset (hgrown : grown.GrownBy table records)
    (h : ∀ entry ∈ table.files, entry.md5Offset = none) :
    ∀ entry ∈ grown.files, entry.md5Offset = none := by
  obtain ⟨entries, hentries, hfiles⟩ := hgrown.files
  rw [hfiles]
  intro entry hentry
  rcases List.mem_append.mp hentry with hearly | hlate
  · exact h entry hearly
  · exact md5Offset_of_legacyFiles hentries entry hlate

/-- The files of version 5 stay those of the header. -/
theorem TakesFrom.files_eq_of_five (h : TakesFrom parameters c table grown records)
    (hversion : 5 ≤ parameters.version) : grown.files = table.files := by
  obtain ⟨entries, hentries, hfiles⟩ := h.grownBy.files
  rw [h.eq_nil_of_five hversion] at hentries
  have hnone : entries = [] := (Except.ok.inj hentries).symm
  rw [hfiles, hnone, List.append_nil]

end FileTable

namespace LineTable

variable {order : ByteOrder} {lines : List UInt8} {offset : ℕ} {context : UnitContext}
  {table current : LineTable} {operations : List Operation}
  {directoryList fileList : ListPieces}

/-- What is read as the digest of a file is the last one of a record. -/
def ReadsDigest (table : LineTable) (columns : List EntryColumn) (record : List Cell)
    (entry : FileEntry) : Prop :=
  table.digest entry = .ok (FileContents.lastDigest columns record)

theorem readsDigest_of_describedBy (hlists : table.HasLists context directoryList fileList)
    (hdescribed : table.files.DescribedBy context table.program.bytes fileList) :
    List.Forall₂ (table.ReadsDigest table.program.header.fileFormat) fileList.records
      table.files.files := by
  have hdescribes := hdescribed.describes
  rw [ListPieces.contents, List.forall₂_map_left_iff] at hdescribes
  refine ((List.forall₂_and_left _ _).mpr ⟨hlists.files.records, hdescribes⟩).imp ?_
  rintro record entry ⟨hcells, hentry⟩
  rw [ReadsDigest, hentry.digest_eq, FileContents.digest_of hcells]

/-- The digests of version 5 are read as at the beginning, whatever was done with the table. -/
theorem readsDigest_of_shared {columns : List EntryColumn} {records : List (List Cell)}
    (hversion : table.program.header.version = 5)
    (h : List.Forall₂ (table.ReadsDigest columns) records table.files.files)
    (hcurrent : ((Session.ofTable table).performAll operations).shared = some current) :
    List.Forall₂ (current.ReadsDigest columns) records current.files.files := by
  obtain ⟨late, htakes⟩ := Session.exists_takes hcurrent
  have hfive : 5 ≤ table.program.header.toParameters.version := by
    rw [show table.program.header.toParameters.version = 5 from hversion]
    decide
  rw [htakes.files_eq_of_five hfive]
  refine h.imp fun record entry hentry => ?_
  rwa [ReadsDigest, digest, Session.program_eq hcurrent]

theorem exists_digest_of_readsDigest {layout : FormLayout} {columns : List EntryColumn}
    {records : List (List Cell)} {files : List FileEntry}
    (hcells : ∀ record ∈ records, List.Forall₂ (EntryColumn.Holds layout) columns record)
    (h : List.Forall₂ (table.ReadsDigest columns) records files) {entry : FileEntry}
    (hentry : entry ∈ files) :
    ∃ found, table.digest entry = .ok found ∧ found.isSome = columns.any (·.holds .md5) ∧
      ∀ digest ∈ found, digest.length = 16 := by
  obtain ⟨record, hmem, hread⟩ := FileTable.exists_of_forall₂ h hentry
  have hrecord := hcells record hmem
  exact ⟨_, hread, FileContents.isSome_lastDigest hrecord,
    FileContents.length_of_lastDigest hrecord⟩

theorem digest_of_shared (hparse : parse order lines offset context = .ok table)
    (hversion : table.program.header.version ≠ 5)
    (hcurrent : ((Session.ofTable table).performAll operations).shared = some current)
    {entry : FileEntry} (hentry : entry ∈ current.files.files) :
    current.digest entry = .ok none := by
  obtain ⟨-, names, records, hcomes⟩ := exists_comesOf_of_parse hparse hversion
  obtain ⟨late, htakes⟩ := Session.exists_takes hcurrent
  rw [digest, htakes.grownBy.md5Offset hcomes.md5Offset entry hentry]

/-- Whatever is done with a table, the digest of each of its files can be read. There is one, of 16
bytes, if the table has version 5 and a column for digests. It is the last one in the record of the
file, which stands in the unit. -/
theorem digests_readable (hparse : parse order lines offset context = .ok table) :
    (∀ (operations : List Operation) (current : LineTable),
      ((Session.ofTable table).performAll operations).shared = some current →
      ∀ entry ∈ current.files.files, ∃ found, current.digest entry = .ok found ∧
        (found.isSome = true ↔ table.program.header.version = 5 ∧
          table.program.header.fileFormat.any (·.holds .md5) = true) ∧
        ∀ digest ∈ found, digest.length = 16) ∧
    (table.program.header.version = 5 → ∃ directoryList fileList,
      table.HasLists context directoryList fileList ∧
      ∀ (operations : List Operation) (current : LineTable),
        ((Session.ofTable table).performAll operations).shared = some current →
        List.Forall₂ (current.ReadsDigest table.program.header.fileFormat) fileList.records
          current.files.files) := by
  by_cases hversion : table.program.header.version = 5
  · obtain ⟨directoryList, fileList, hlists, hdescribed⟩ :=
      exists_describedBy_of_parse hparse hversion
    have hdigests := readsDigest_of_describedBy hlists hdescribed
    constructor
    · intro operations current hcurrent entry hentry
      obtain ⟨found, hread, hsome, hlength⟩ := exists_digest_of_readsDigest
        hlists.files.records (readsDigest_of_shared hversion hdigests hcurrent) hentry
      refine ⟨found, hread, ?_, hlength⟩
      rw [hsome, and_iff_right hversion]
    · intro _
      refine ⟨directoryList, fileList, hlists, ?_⟩
      intro operations current hcurrent
      exact readsDigest_of_shared hversion hdigests hcurrent
  · constructor
    · intro operations current hcurrent entry hentry
      refine ⟨none, digest_of_shared hparse hversion hcurrent hentry, ?_, nofun⟩
      simp [hversion]
    · intro hfive
      exact absurd hfive hversion

/-- Two files of version 5 with two columns for digests around their names, of which the second
counts. -/
theorem digests_readable_after_names :
    ∃ table current directoryList fileList, parse .little
        ([104, 0, 0, 0, 5, 0, 8, 0, 93, 0, 0, 0, 1, 1, 1, 251, 14, 4, 0, 1, 1, 1, 1, 8, 1, 47, 100, 0,
          3, 5, 30, 1, 8, 5, 30, 2] ++
          (List.replicate 16 6 ++ [97, 0] ++ List.replicate 16 7) ++
          (List.replicate 16 8 ++ [98, 99, 0] ++ List.replicate 16 9) ++ [0, 1, 1]) 0 {} =
        .ok table ∧
      ((Session.ofTable table).performAll [.rows]).shared = some current ∧
      table.HasLists {} directoryList fileList ∧
      List.Forall₂ (current.ReadsDigest table.program.header.fileFormat) fileList.records
        current.files.files ∧
      (∀ entry ∈ current.files.files, ∃ found, current.digest entry = .ok found ∧
        ∀ digest ∈ found, digest.length = 16) ∧
      current.files.files.map current.digest =
        [.ok (some (List.replicate 16 7)), .ok (some (List.replicate 16 9))] := by
  have hknown : (parse .little
        ([104, 0, 0, 0, 5, 0, 8, 0, 93, 0, 0, 0, 1, 1, 1, 251, 14, 4, 0, 1, 1, 1, 1, 8, 1, 47, 100, 0,
          3, 5, 30, 1, 8, 5, 30, 2] ++
          (List.replicate 16 6 ++ [97, 0] ++ List.replicate 16 7) ++
          (List.replicate 16 8 ++ [98, 99, 0] ++ List.replicate 16 9) ++ [0, 1, 1]) 0 {}).map
      (fun table => decide (table.program.header.version = 5 ∧
        table.trace.files.files.map table.digest =
          [.ok (some (List.replicate 16 7)), .ok (some (List.replicate 16 9))])) = .ok true := by
    decide +kernel
  obtain ⟨table, hparse, hfacts⟩ := exists_of_map_eq_ok hknown
  obtain ⟨hversion, hdigests⟩ := of_decide_eq_true hfacts
  have hcurrent : ((Session.ofTable table).performAll [.rows]).shared =
    some { table with files := table.trace.files } := rfl
  obtain ⟨hreadable, hrecords⟩ := digests_readable hparse
  obtain ⟨directoryList, fileList, hlists, hcarried⟩ := hrecords hversion
  refine ⟨table, _, directoryList, fileList, hparse, hcurrent, hlists, hcarried _ _ hcurrent, ?_,
    hdigests⟩
  intro entry hentry
  obtain ⟨found, hread, -, hlength⟩ := hreadable _ _ hcurrent entry hentry
  exact ⟨found, hread, hlength⟩

end LineTable

end DwarfLines
