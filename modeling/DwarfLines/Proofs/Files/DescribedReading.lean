import Mathlib
import DwarfLines.Proofs.Dwarf.FormReading
import DwarfLines.Proofs.Files.Paths

/-!
# Reading described lists

The columns of a list say in which order and form the values of each entry stand. What is known of
a file grows column by column: after some columns it has the values that these columns hold, and
its digest stands where the unit has it. The path is resolved once all columns are read, so the
directory may come after it.
-/

namespace DwarfLines

/-- What a file list says of one file. -/
structure FileValues where
  path : String
  directoryIndex : UInt64 := 0
  timestamp : UInt64 := 0
  size : UInt64 := 0
  digest : List UInt8 := []
  deriving DecidableEq, Repr

namespace Reader

variable {ε α σ : Type}

theorem prefix_drop_append {unit bytes more : List UInt8} {offset : ℕ}
    (h : bytes ++ more <+: unit.drop offset) :
    bytes <+: unit.drop offset ∧ more <+: unit.drop (offset + bytes.length) := by
  obtain ⟨rest, hrest⟩ := h
  refine ⟨⟨more ++ rest, by rw [← hrest, List.append_assoc]⟩, rest, ?_⟩
  rw [← List.drop_drop, ← hrest, List.append_assoc, List.drop_left]

theorem reads_times {item : Reader ε α} {Known : σ → α → Prop} {unit : List UInt8}
    {sources : List σ} {records : List (List UInt8)}
    (h : List.Forall₂ (fun source bytes => ∀ offset, bytes <+: unit.drop offset →
      ∃ a, item.Reads offset bytes a ∧ Known source a) sources records)
    {offset : ℕ} (hunit : records.flatten <+: unit.drop offset) :
    ∃ found, (times item records.length).Reads offset records.flatten found ∧
      List.Forall₂ Known sources found := by
  induction h generalizing offset with
  | nil => exact ⟨[], reads_pure _ _, .nil⟩
  | cons hitem hrest ih =>
    obtain ⟨hfirst, hmore⟩ := prefix_drop_append hunit
    obtain ⟨a, hread, hknown⟩ := hitem offset hfirst
    obtain ⟨found, hreads, hall⟩ := ih hmore
    exact ⟨a :: found, hread.bind (hreads.bind_pure _), .cons hknown hall⟩

end Reader

namespace EntryColumn

def holds (known : ContentType) (column : EntryColumn) : Bool :=
  column.contentType == known.code

def tellsTime (column : EntryColumn) : Bool :=
  column.holds .timestamp && column.form != Form.block.code

theorem holds_code (known other : ContentType) (form : UInt16) :
    holds known ⟨other.code, form⟩ = decide (known = other) := by
  cases known <;> cases other <;> rfl

end EntryColumn

namespace FileValues

variable (layout : FormLayout) (values : FileValues)

/-- Bytes stand for the value that a column gives a file. A timestamp may be a block of any
contents. -/
inductive Writes : EntryColumn → List UInt8 → Prop
  | path {form bytes} : layout.WritesString form values.path bytes →
      Writes ⟨ContentType.path.code, form.code⟩ bytes
  | directoryIndex {form bytes} : layout.WritesNumber form values.directoryIndex bytes →
      Writes ⟨ContentType.directoryIndex.code, form.code⟩ bytes
  | timestamp {form bytes} : layout.WritesNumber form values.timestamp bytes →
      Writes ⟨ContentType.timestamp.code, form.code⟩ bytes
  | timestampBlock {block : List UInt8} : block.length < 0x10000000000000000 →
      Writes ⟨ContentType.timestamp.code, Form.block.code⟩
        (Leb128.unsignedBytes block.length ++ block)
  | size {form bytes} : layout.WritesNumber form values.size bytes →
      Writes ⟨ContentType.size.code, form.code⟩ bytes
  | md5 : values.digest.length = 16 →
      Writes ⟨ContentType.md5.code, Form.data16.code⟩ values.digest

/-- A unit has a file's digest at an offset. -/
structure DigestAt (unit : List UInt8) (offset : ℕ) : Prop where
  offset_le : offset ≤ unit.length
  length : values.digest.length = 16
  bytes : values.digest <+: unit.drop offset

/-- Besides its path, an entry has the values that some columns hold, and no others. -/
structure Fill (unit : List UInt8) (columns : List EntryColumn) (entry : FileEntry) :
    Prop where
  directoryIndex : entry.directoryIndex =
    if columns.any (·.holds .directoryIndex) then values.directoryIndex else 0
  timestamp : entry.timestamp =
    if columns.any (·.tellsTime) then some values.timestamp else none
  size : entry.size = if columns.any (·.holds .size) then some values.size else none
  hasDigest : entry.md5Offset.isSome = columns.any (·.holds .md5)
  digestAt : ∀ offset ∈ entry.md5Offset, values.DigestAt unit offset

/-- An entry has the values that some columns hold, its path as it was read. -/
structure FilledIn (unit : List UInt8) (columns : List EntryColumn) (entry : FileEntry) : Prop
    extends values.Fill unit columns entry where
  path : entry.path = if columns.any (·.holds .path) then values.path else ""

variable {layout values} {unit : List UInt8} {columns : List EntryColumn} {entry : FileEntry}

theorem filledIn_nil (values : FileValues) (unit : List UInt8) :
    values.FilledIn unit [] { path := "", directoryIndex := 0 } :=
  ⟨⟨rfl, rfl, rfl, rfl, nofun⟩, rfl⟩

theorem reads_skip_block {block : List UInt8} (h : block.length < 0x10000000000000000)
    (offset : ℕ) :
    (layout.skip Form.block.code).Reads offset (Leb128.unsignedBytes block.length ++ block) () := by
  have hword : (UInt64.ofNat block.length).toNat = block.length := by simpa using h
  have hskip := Reader.reads_skip (offset + (Leb128.unsignedBytes block.length).length) block
  unfold FormLayout.skip
  rw [Form.ofCode?_code]
  apply (Reader.reads_uleb128_ofNat offset h).lift.bind
  rw [hword]
  exact hskip.lift

theorem reads_skip_data16 {digest : List UInt8} (h : digest.length = 16) (offset : ℕ) :
    (layout.skip Form.data16.code).Reads offset digest () := by
  have hskip := Reader.reads_skip offset digest
  rw [h] at hskip
  exact hskip.lift

theorem code_ne_block {form : Form} {n : UInt64} {bytes : List UInt8}
    (h : layout.WritesNumber form n bytes) : form.code ≠ Form.block.code := by
  cases h <;> decide

theorem digestAt_of_isPrefix {offset : ℕ} (hlength : values.digest.length = 16)
    (hunit : values.digest <+: unit.drop offset) : values.DigestAt unit offset := by
  have hle := hunit.length_le
  rw [List.length_drop] at hle
  exact ⟨by omega, hlength, hunit⟩

theorem FilledIn.add (h : values.FilledIn unit columns entry) {column : EntryColumn}
    {next : FileEntry}
    (hpath : next.path = if column.holds .path then values.path else entry.path)
    (hdirectory : next.directoryIndex =
      if column.holds .directoryIndex then values.directoryIndex else entry.directoryIndex)
    (htime : next.timestamp =
      if column.tellsTime then some values.timestamp else entry.timestamp)
    (hsize : next.size = if column.holds .size then some values.size else entry.size)
    (hdigest : if column.holds .md5 then
        ∃ offset, next.md5Offset = some offset ∧ values.DigestAt unit offset
      else next.md5Offset = entry.md5Offset) :
    values.FilledIn unit (columns ++ [column]) next := by
  refine ⟨⟨?_, ?_, ?_, ?_, ?_⟩, ?_⟩
  · rw [hdirectory, h.directoryIndex]
    by_cases hnew : column.holds .directoryIndex <;> simp [hnew]
  · rw [htime, h.timestamp]
    by_cases hnew : column.tellsTime <;> simp [hnew]
  · rw [hsize, h.size]
    by_cases hnew : column.holds .size <;> simp [hnew]
  · by_cases hnew : column.holds .md5
    · rw [if_pos hnew] at hdigest
      obtain ⟨offset, hsome, -⟩ := hdigest
      simp [hsome, hnew]
    · rw [if_neg hnew] at hdigest
      simp [hdigest, h.hasDigest, hnew]
  · intro place hplace
    by_cases hnew : column.holds .md5
    · rw [if_pos hnew] at hdigest
      obtain ⟨offset, hsome, hat⟩ := hdigest
      rw [hsome] at hplace
      cases hplace
      exact hat
    · rw [if_neg hnew] at hdigest
      exact h.digestAt place (hdigest ▸ hplace)
  · rw [hpath, h.path]
    by_cases hnew : column.holds .path <;> simp [hnew]

/-- Reading a column adds what it holds. -/
theorem reads_column {column : EntryColumn} {bytes : List UInt8}
    (hw : values.Writes layout column bytes) (hfilled : values.FilledIn unit columns entry)
    {offset : ℕ} (hunit : bytes <+: unit.drop offset) :
    ∃ next, (FileTable.readColumn layout entry column).Reads offset bytes next ∧
      values.FilledIn unit (columns ++ [column]) next := by
  unfold FileTable.readColumn
  cases hw with
  | path hstring =>
    rw [ContentType.ofCode?_code]
    have hread := FormLayout.reads_string hstring offset
    exact ⟨_, hread.bind_pure _, hfilled.add rfl rfl rfl rfl rfl⟩
  | directoryIndex hnumber =>
    rw [ContentType.ofCode?_code]
    have hread := FormLayout.reads_unsigned hnumber offset
    exact ⟨_, hread.bind_pure _, hfilled.add rfl rfl rfl rfl rfl⟩
  | timestamp hnumber =>
    rw [ContentType.ofCode?_code]
    have hform := code_ne_block hnumber
    have hread := FormLayout.reads_unsigned hnumber offset
    simp only [hform, if_false]
    refine ⟨_, hread.bind_pure _, hfilled.add rfl rfl ?_ rfl rfl⟩
    simp [EntryColumn.tellsTime, EntryColumn.holds_code, hform]
  | timestampBlock hblock =>
    rw [ContentType.ofCode?_code]
    simp only [if_true]
    exact ⟨_, (reads_skip_block hblock offset).bind_pure _, hfilled.add rfl rfl rfl rfl rfl⟩
  | size hnumber =>
    rw [ContentType.ofCode?_code]
    have hread := FormLayout.reads_unsigned hnumber offset
    exact ⟨_, hread.bind_pure _, hfilled.add rfl rfl rfl rfl rfl⟩
  | md5 hlength =>
    rw [ContentType.ofCode?_code]
    have hread : (layout.skip Form.data16.code).Reads offset values.digest () :=
      reads_skip_data16 hlength offset
    exact ⟨_, (Reader.reads_offset offset).nil_bind (hread.bind_pure _),
      hfilled.add rfl rfl rfl rfl ⟨offset, rfl, digestAt_of_isPrefix hlength hunit⟩⟩

theorem reads_columns {seen : List EntryColumn} {record : List (List UInt8)}
    (hw : List.Forall₂ (values.Writes layout) columns record)
    (hfilled : values.FilledIn unit seen entry) {offset : ℕ}
    (hunit : record.flatten <+: unit.drop offset) :
    ∃ next, (columns.foldlM (FileTable.readColumn layout) entry).Reads offset record.flatten
        next ∧ values.FilledIn unit (seen ++ columns) next := by
  induction hw generalizing seen entry offset with
  | nil => exact ⟨entry, Reader.reads_pure _ _, by simpa using hfilled⟩
  | cons hcolumn hrest ih =>
    obtain ⟨hfirst, hmore⟩ := Reader.prefix_drop_append hunit
    obtain ⟨next, hread, hnext⟩ := reads_column hcolumn hfilled hfirst
    obtain ⟨last, hreads, hlast⟩ := ih hnext hmore
    refine ⟨last, ?_, by simpa using hlast⟩
    rw [List.foldlM_cons]
    exact hread.bind hreads

/-- An entry is what its columns say: those that hold nothing leave a field unknown, and the path
is relative to its directory unless it is absolute. -/
structure Describes (values : FileValues) (unit : List UInt8) (table : FileTable)
    (columns : List EntryColumn) (entry : FileEntry) : Prop
    extends values.Fill unit columns entry where
  path : entry.path = Path.inside (table.directoryAt entry.directoryIndex) values.path

theorem reads_file {table : FileTable} {record : List (List UInt8)}
    (hpath : columns.any (·.holds .path) = true) (hname : values.path ≠ "")
    (hw : List.Forall₂ (values.Writes layout) columns record) {offset : ℕ}
    (hunit : record.flatten <+: unit.drop offset) :
    ∃ entry, (table.readFile layout columns).Reads offset record.flatten entry ∧
      values.Describes unit table columns entry := by
  obtain ⟨filled, hread, hfilled⟩ := reads_columns hw (filledIn_nil values unit) hunit
  rw [List.nil_append] at hfilled
  have hraw : filled.path = values.path := by rw [hfilled.path, if_pos hpath]
  refine ⟨{ filled with
    path := Path.inside (table.directoryAt filled.directoryIndex) values.path }, ?_, ?_⟩
  · unfold FileTable.readFile
    apply hread.bind_nil
    rw [hraw, Path.resolveFile_eq _ hname]
    exact (Reader.reads_lift_ok _ _).bind_pure _
  · obtain ⟨hdirectory, htime, hsize, hdigest, hat⟩ := hfilled.toFill
    exact ⟨⟨hdirectory, htime, hsize, hdigest, hat⟩, rfl⟩

end FileValues

namespace EntryColumn

theorem reads_column (column : EntryColumn) (offset : ℕ) :
    read.Reads offset column.bytes column := by
  have htype : (UInt64.ofNat column.contentType.toNat).toUInt16 = column.contentType := by
    simp
  have hform : (UInt64.ofNat column.form.toNat).toUInt16 = column.form := by
    simp
  have hsmall (n : UInt16) : ¬ 0xffff < UInt64.ofNat n.toNat := by
    have hlt := n.toNat_lt
    rw [UInt64.lt_iff_toNat_lt, UInt64.toNat_ofNat_of_lt' (hlt.trans (by decide))]
    exact Nat.not_lt.mpr (Nat.le_of_lt_succ hlt)
  unfold read bytes
  apply (Reader.reads_uleb128_ofNat _ (column.contentType.toNat_lt.trans (by decide))).lift.bind
  apply (Reader.reads_uleb128_ofNat _ (column.form.toNat_lt.trans (by decide))).lift.bind_nil
  simp only [hsmall, if_false, htype, hform]
  exact Reader.reads_pure _ _

theorem toNat_count {count : ℕ} (h : count < 256) : (UInt8.ofNat count).toNat = count :=
  UInt8.toNat_ofNat_of_lt' h

theorem reads_allowedColumns {columns : List EntryColumn}
    (h : ∀ column ∈ columns, column.isAllowed = true) (offset : ℕ) :
    (Reader.times readAllowed columns.length).Reads offset (columns.flatMap bytes) columns := by
  induction columns generalizing offset with
  | nil => exact Reader.reads_pure _ _
  | cons column rest ih =>
    have hfirst : readAllowed.Reads offset column.bytes column := by
      apply (reads_column column offset).bind_nil
      simp only [h column List.mem_cons_self, if_true]
      exact Reader.reads_pure _ _
    have hmore := ih (fun other hother => h other (List.mem_cons_of_mem _ hother))
      (offset + column.bytes.length)
    exact hfirst.bind (hmore.bind_pure _)

theorem reads_fileFormat {columns : List EntryColumn} (hne : columns ≠ [])
    (hlength : columns.length < 256) (h : ∀ column ∈ columns, column.isAllowed = true)
    (offset : ℕ) :
    readFileFormat.Reads offset
      (UInt8.ofNat columns.length :: columns.flatMap bytes) columns := by
  have hcount := toNat_count hlength
  have hpos := List.length_pos_of_ne_nil hne
  have hnonzero : UInt8.ofNat columns.length ≠ 0 := by
    intro hzero
    rw [hzero] at hcount
    exact hpos.ne hcount
  unfold readFileFormat
  apply Reader.Reads.byte_bind
  simp only [hnonzero, if_false, hcount]
  exact reads_allowedColumns h _

theorem reads_directoryFormat {column : EntryColumn}
    (htype : column.contentType = ContentType.path.code) (hform : isPathForm column.form = true)
    (offset : ℕ) :
    readDirectoryFormat.Reads offset (1 :: column.bytes) [column] := by
  unfold readDirectoryFormat
  apply Reader.Reads.byte_bind
  simp only [ne_eq, not_true_eq_false, if_false]
  apply (reads_column column _).bind_nil
  simp only [htype, not_true_eq_false, if_false, hform, if_true]
  exact Reader.reads_pure _ _

end EntryColumn
end DwarfLines
