import Mathlib
import DwarfLines.Proofs.Bytes.Gives
import DwarfLines.Proofs.Files.Paths
import DwarfLines.Proofs.Machine.Decoding

/-!
# Reading the lists before version 5

Both lists end with an empty name, so they are read back as long as none of their own names is
empty. The directories and files that come of them are told by the names and records alone, since
a name that is not empty always resolves.
-/

namespace DwarfLines

theorem Utf8.encode_ne_nil {text : String} (h : text ≠ "") : encode text ≠ [] := by
  intro hnil
  have hdecoded := decode_encode text
  rw [hnil] at hdecoded
  exact h (hdecoded.symm.trans (by simp [decode, decodeChars]))

namespace LegacyLists

theorem reads_directoryName {name : String} (hname : name ≠ "")
    (hzero : Char.ofNat 0 ∉ name.toList) (offset : ℕ) :
    directoryName.Reads offset (terminatedBytes name) (some name) := by
  have hread := (Reader.reads_terminatedBytes hzero offset).bind_pure
    fun text => if text.isEmpty then none else some (Utf8.decode text)
  have hempty : (Utf8.encode name).isEmpty = false := by
    simpa using Utf8.encode_ne_nil hname
  rwa [hempty, Utf8.decode_encode] at hread

theorem reads_fileRecord {record : FileRecord} (h : record.isWritable = true) (offset : ℕ) :
    fileRecord.Reads offset record.bytes (some record) := by
  obtain ⟨hname, hzero⟩ := record.isWritable_iff.mp h
  have hempty : ¬ (Utf8.encode record.name).isEmpty = true := by
    simpa using Utf8.encode_ne_nil hname
  have hdetails := reads_fileDetails record (offset + (terminatedBytes record.name).length)
  unfold fileRecord FileRecord.bytes
  simp only [List.append_assoc]
  apply (Reader.reads_terminatedBytes hzero offset).bind
  rw [if_neg hempty, Utf8.decode_encode]
  exact hdetails.map some

theorem reads_directoryName_end (offset : ℕ) : directoryName.Reads offset [0] none :=
  (Reader.reads_terminated (List.not_mem_nil) offset).bind_pure _

theorem reads_fileRecord_end (offset : ℕ) : fileRecord.Reads offset [0] none :=
  (Reader.reads_terminated (List.not_mem_nil) offset).bind_nil (Reader.reads_pure _ _)

end LegacyLists

/-- What can be written of lists: names that are neither empty nor cut short by a zero byte. -/
theorem LegacyDeclarations.isWritable_iff (declared : LegacyDeclarations) :
    declared.isWritable = true ↔
      (∀ name ∈ declared.directories, name ≠ "" ∧ Char.ofNat 0 ∉ name.toList) ∧
        ∀ record ∈ declared.records, record.isWritable = true := by
  simp [isWritable, hasNoZero]

namespace FileTable

theorem mapM_eq_ok {ε α β : Type} {f : α → Except ε β} {g : α → β} {items : List α}
    (h : ∀ a ∈ items, f a = .ok (g a)) : items.mapM f = .ok (items.map g) := by
  induction items with
  | nil => rfl
  | cons a items ih =>
    rw [List.mapM_cons, h a List.mem_cons_self, ih fun b hb => h b (List.mem_cons_of_mem a hb)]
    rfl

theorem forall₂_of_mapM_eq_ok {ε α β : Type} {f : α → Except ε β} {items : List α}
    {found : List β} (h : items.mapM f = .ok found) :
    List.Forall₂ (fun a b => f a = .ok b) items found := by
  induction items generalizing found with
  | nil =>
    cases h
    exact .nil
  | cons a items ih =>
    rw [List.mapM_cons] at h
    obtain ⟨b, hfirst, h⟩ := exists_of_bind_eq_ok h
    obtain ⟨more, hmore, h⟩ := exists_of_bind_eq_ok h
    cases h
    exact .cons hfirst (ih hmore)

theorem exists_of_forall₂ {α β : Type} {related : α → β → Prop} {first : List α} {second : List β}
    (h : List.Forall₂ related first second) {b : β} (hb : b ∈ second) :
    ∃ a ∈ first, related a b := by
  induction h with
  | nil => cases hb
  | @cons a b' first second hrelated hrest ih =>
    rcases List.mem_cons.mp hb with rfl | hmem
    · exact ⟨a, List.mem_cons_self, hrelated⟩
    · obtain ⟨other, hother, hfound⟩ := ih hmem
      exact ⟨other, List.mem_cons_of_mem a hother, hfound⟩

def recordEntry (table : FileTable) (record : FileRecord) : FileEntry where
  path := Path.inside (table.directoryAt record.directoryIndex) record.name
  directoryIndex := record.directoryIndex
  timestamp := if record.timestamp = 0 then none else some record.timestamp
  size := if record.size = 0 then none else some record.size

theorem entryOf_eq (table : FileTable) {record : FileRecord} (h : record.name ≠ "") :
    table.entryOf record = .ok (table.recordEntry record) := by
  unfold entryOf
  rw [Path.resolveFile_eq _ h]
  rfl

theorem legacyDirectories_eq (compDir : String) {names : List String}
    (h : ∀ name ∈ names, name ≠ "") :
    legacyDirectories compDir names = .ok (compDir :: names.map (Path.below compDir)) := by
  unfold legacyDirectories
  rw [mapM_eq_ok fun name hname => Path.resolveDirectory_eq compDir (h name hname)]
  rfl

theorem legacyFiles_eq (table : FileTable) {records : List FileRecord}
    (h : ∀ record ∈ records, record.name ≠ "") :
    table.legacyFiles records = .ok (records.map table.recordEntry) :=
  mapM_eq_ok fun record hrecord => table.entryOf_eq (h record hrecord)

/-- The directories and files that a unit's lists come to. -/
def ofLegacy (context : UnitContext) (declared : LegacyDeclarations) : FileTable :=
  let compDir := Path.ended context.compDir
  let table : FileTable :=
    { compDir, directories := compDir :: declared.directories.map (Path.below compDir) }
  { table with
    files := { path := Path.inside compDir context.name, directoryIndex := 0 } ::
      declared.records.map table.recordEntry }

/-- Lists that can be written are read back. -/
theorem reads_legacy {context : UnitContext} {declared : LegacyDeclarations}
    (hdeclared : declared.isWritable = true) (hdir : context.compDir ≠ "")
    (hname : context.name ≠ "") (offset : ℕ) :
    (readLegacy context).Reads offset declared.bytes (ofLegacy context declared) := by
  obtain ⟨hdirectories, hrecords⟩ := declared.isWritable_iff.mp hdeclared
  have hnames (start : ℕ) : LegacyLists.directoryNames.Reads start
      (declared.directories.flatMap terminatedBytes ++ [0]) declared.directories :=
    Reader.reads_untilNone (fun name hmem => LegacyLists.reads_directoryName
      (hdirectories name hmem).1 (hdirectories name hmem).2)
      LegacyLists.reads_directoryName_end start
  have hfiles (start : ℕ) : LegacyLists.fileRecords.Reads start
      (declared.records.flatMap FileRecord.bytes ++ [0]) declared.records :=
    Reader.reads_untilNone (fun record hmem => LegacyLists.reads_fileRecord (hrecords record hmem))
      LegacyLists.reads_fileRecord_end start
  have hbytes : declared.bytes =
      (declared.directories.flatMap terminatedBytes ++ [0]) ++
        (declared.records.flatMap FileRecord.bytes ++ [0]) := by
    simp [LegacyDeclarations.bytes]
  unfold readLegacy
  rw [hbytes, Path.normalizeDirectory_eq hdir]
  apply (Reader.reads_lift_ok _ _).nil_bind
  apply (hnames offset).lift.bind
  rw [legacyDirectories_eq _ fun name hmem => (hdirectories name hmem).1]
  apply (Reader.reads_lift_ok _ _).nil_bind
  rw [Path.resolveFile_eq _ hname]
  apply (Reader.reads_lift_ok _ _).nil_bind
  apply (hfiles _).lift.bind_nil
  rw [legacyFiles_eq _ fun record hmem => (record.isWritable_iff.mp (hrecords record hmem)).1]
  exact (Reader.reads_lift_ok _ _).bind_pure _

end FileTable
end DwarfLines
