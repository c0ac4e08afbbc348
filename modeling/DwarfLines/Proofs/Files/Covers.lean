import Mathlib
import DwarfLines.Files.Table

/-!
# File tables that passes share

Passes over one program meet the same declarations, so the file tables they leave differ only in
how far they got. Two tables agree if they hold the same entries and were taken equally far, and
one covers another if it was extended at least as far.
-/

namespace DwarfLines
namespace FileTable

/-- Two file tables that differ at most in what they remember about passes. -/
structure Agrees (table other : FileTable) : Prop where
  compDir : table.compDir = other.compDir
  directories : table.directories = other.directories
  files : table.files = other.files
  definedThrough : table.definedThrough = other.definedThrough

/-- A file table that another pass has extended at least as far. -/
structure Covers (table other : FileTable) : Prop where
  compDir : table.compDir = other.compDir
  directories : table.directories = other.directories
  files : other.files <+: table.files
  definedThrough : other.definedThrough ≤ table.definedThrough

theorem Agrees.refl (table : FileTable) : table.Agrees table := ⟨rfl, rfl, rfl, rfl⟩

theorem Agrees.symm {table other : FileTable} (h : table.Agrees other) : other.Agrees table :=
  ⟨h.compDir.symm, h.directories.symm, h.files.symm, h.definedThrough.symm⟩

theorem Agrees.trans {a b c : FileTable} (hab : a.Agrees b) (hbc : b.Agrees c) : a.Agrees c :=
  ⟨hab.compDir.trans hbc.compDir, hab.directories.trans hbc.directories,
    hab.files.trans hbc.files, hab.definedThrough.trans hbc.definedThrough⟩

theorem Agrees.covers {table other : FileTable} (h : table.Agrees other) : table.Covers other :=
  ⟨h.compDir, h.directories, h.files ▸ List.prefix_rfl, h.definedThrough.ge⟩

theorem Covers.refl (table : FileTable) : table.Covers table := (Agrees.refl table).covers

theorem Covers.trans {a b c : FileTable} (hab : a.Covers b) (hbc : b.Covers c) : a.Covers c :=
  ⟨hab.compDir.trans hbc.compDir, hab.directories.trans hbc.directories,
    hbc.files.trans hab.files, hbc.definedThrough.trans hab.definedThrough⟩

theorem Agrees.file? {table other : FileTable} (h : table.Agrees other) (index : UInt64) :
    table.file? index = other.file? index := by
  simp [FileTable.file?, h.files]

theorem Covers.file? {table other : FileTable} (h : table.Covers other) {index : UInt64}
    {entry : FileEntry} (hfile : other.file? index = some entry) :
    table.file? index = some entry := by
  obtain ⟨more, hmore⟩ := h.files
  rw [FileTable.file?, ← hmore, List.getElem?_append_left (List.getElem?_eq_some_iff.mp hfile).1]
  exact hfile

theorem markComplete_agrees (table : FileTable) : table.markComplete.Agrees table :=
  ⟨rfl, rfl, rfl, rfl⟩

theorem recordFullScan_agrees (table : FileTable) : table.recordFullScan.Agrees table :=
  ⟨rfl, rfl, rfl, rfl⟩

theorem entryOf_congr {table other : FileTable} (hcomp : table.compDir = other.compDir)
    (hdirs : table.directories = other.directories) (record : FileRecord) :
    table.entryOf record = other.entryOf record := by
  simp [entryOf, directoryAt, hcomp, hdirs]

theorem define_of_lt {table : FileTable} {start finish : ℕ} (record : FileRecord)
    (h : start < table.definedThrough) : table.define start finish record = .ok table :=
  if_pos h

theorem define_of_le {table : FileTable} {start finish : ℕ} (record : FileRecord)
    (h : table.definedThrough ≤ start) :
    table.define start finish record = (table.entryOf record).map fun entry =>
      { table.append entry with definedThrough := finish } := by
  rw [define, if_neg (Nat.not_lt.mpr h)]
  cases table.entryOf record <;> rfl

/-- A declaration that is accepted was taken before, or adds its entry now. -/
theorem define_eq_ok {table next : FileTable} {start finish : ℕ} {record : FileRecord}
    (h : table.define start finish record = .ok next) :
    (start < table.definedThrough ∧ next = table) ∨
    (table.definedThrough ≤ start ∧ ∃ entry, table.entryOf record = .ok entry ∧
      next = { table.append entry with definedThrough := finish }) := by
  rcases Nat.lt_or_ge start table.definedThrough with hlt | hle
  · rw [define_of_lt record hlt] at h
    cases h
    exact .inl ⟨hlt, rfl⟩
  · rw [define_of_le record hle] at h
    cases hentry : table.entryOf record with
    | error e => simp [hentry, Except.map] at h
    | ok entry =>
      simp only [hentry, Except.map, Except.ok.injEq] at h
      exact .inr ⟨hle, entry, rfl, h.symm⟩

theorem define_covers {table next : FileTable} {start finish : ℕ} {record : FileRecord}
    (hlt : start < finish) (h : table.define start finish record = .ok next) :
    next.Covers table ∧ start < next.definedThrough ∧
      (table.definedThrough ≤ start → next.definedThrough = finish) := by
  rcases define_eq_ok h with ⟨hs, rfl⟩ | ⟨hle, entry, -, rfl⟩
  · exact ⟨.refl _, hs, fun hle => absurd hs (Nat.not_lt.mpr hle)⟩
  · exact ⟨⟨rfl, rfl, List.prefix_append _ _, hle.trans hlt.le⟩, hlt, fun _ => rfl⟩

/-- The same declaration on tables that agree. -/
inductive DefinesAlike : Except LineError FileTable → Except LineError FileTable → Prop
  | error (e : LineError) : DefinesAlike (.error e) (.error e)
  | ok {next other : FileTable} : next.Agrees other → DefinesAlike (.ok next) (.ok other)

theorem Agrees.define {table other : FileTable} (h : table.Agrees other) (start finish : ℕ)
    (record : FileRecord) :
    DefinesAlike (table.define start finish record) (other.define start finish record) := by
  by_cases hs : start < table.definedThrough
  · rw [define_of_lt record hs, define_of_lt record (h.definedThrough ▸ hs)]
    exact .ok h
  · have hle := Nat.not_lt.mp hs
    rw [define_of_le record hle, define_of_le record (h.definedThrough ▸ hle),
      entryOf_congr h.compDir h.directories]
    cases other.entryOf record with
    | error e => exact .error e
    | ok entry => exact .ok ⟨h.compDir, h.directories, by simp [append, h.files], rfl⟩

end FileTable

end DwarfLines
