import Mathlib
import DwarfLines.Proofs.Files.LegacyReading
import DwarfLines.Proofs.Machine.Declarations

/-!
# Absolute paths and ended directories

A path that begins at a root keeps its root whatever is appended to it, and what ends with a
separator ends with it whatever it is appended to. So every directory of a table ends with a
separator, and the paths of a table whose compile directory is absolute are all absolute, however
the entries came into the table.
-/

namespace DwarfLines

namespace Path

theorem isAbsolute_append {path : String} (h : isAbsolute path = true) (more : String) :
    isAbsolute (path ++ more) = true := by
  unfold isAbsolute at h ⊢
  rw [String.toList_append]
  generalize path.toList = characters at h ⊢
  rcases characters with _ | ⟨first, _ | ⟨second, _ | ⟨third, rest⟩⟩⟩
  · simp at h
  · -- A single character is a root only if it is a separator.
    have hfirst : isSeparator first = true := by simpa using h
    simp [hfirst]
  · have hfirst : isSeparator first = true := by
      by_cases hsecond : second = ':'
      · subst hsecond
        simpa using h
      · simpa using h
    simp [hfirst]
  · by_cases hsecond : second = ':'
    · subst hsecond
      simpa using h
    · simpa [hsecond] using h

theorem endsWithSeparator_iff {path : String} :
    endsWithSeparator path = true ↔
      path.toList.getLast? = some '/' ∨ path.toList.getLast? = some '\\' := by
  unfold endsWithSeparator
  cases path.toList.getLast? with
  | none => simp
  | some last => simp [isSeparator]

theorem ne_of_endsWithSeparator {path : String} (h : endsWithSeparator path = true) :
    path ≠ "" := by
  rintro rfl
  cases h

theorem endsWithSeparator_append (front : String) {path : String}
    (h : endsWithSeparator path = true) : endsWithSeparator (front ++ path) = true := by
  rw [endsWithSeparator_iff] at h ⊢
  rw [String.toList_append, List.getLast?_append]
  rcases h with h | h
  · simp [h]
  · simp [h]

theorem endsWithSeparator_ended (path : String) : endsWithSeparator (ended path) = true := by
  unfold ended
  split_ifs with h
  · exact h
  · exact endsWithSeparator_append path (by decide)

theorem isAbsolute_ended {path : String} (h : isAbsolute path = true) :
    isAbsolute (ended path) = true := by
  unfold ended
  split_ifs
  · exact h
  · exact isAbsolute_append h "/"

/-- A directory among others: it is ended, and absolute if the compile directory is. -/
structure Placed (compDir directory : String) : Prop where
  ended : endsWithSeparator directory = true
  absolute : isAbsolute compDir = true → isAbsolute directory = true

theorem placed_ended (path : String) : Placed (ended path) (ended path) := by
  constructor
  · exact endsWithSeparator_ended path
  · exact id

theorem placed_below (compDir raw : String) : Placed compDir (below compDir raw) := by
  unfold below
  split_ifs with hraw
  · exact ⟨endsWithSeparator_ended raw, fun _ => hraw⟩
  · constructor
    · exact endsWithSeparator_append compDir (endsWithSeparator_ended raw)
    · exact fun h => isAbsolute_append h _

theorem isAbsolute_inside {directory : String} (h : isAbsolute directory = true) (raw : String) :
    isAbsolute (inside directory raw) = true := by
  unfold inside
  split_ifs with hraw
  · exact hraw
  · exact isAbsolute_append h raw

theorem inside_ne (directory : String) {raw : String} (h : raw ≠ "") :
    inside directory raw ≠ "" := by
  unfold inside
  split_ifs
  · exact h
  · simp [h]

end Path

namespace FileTable

variable {table grown : FileTable} {names : List String}

/-- An absolute compile directory is absolute with a separator at its end, too. -/
theorem isAbsolute_knownCompDir {compDir : String} (h : Path.isAbsolute compDir = true) :
    Path.isAbsolute (knownCompDir compDir) = true := by
  have hne : compDir ≠ "" := by
    rintro rfl
    cases h
  rw [knownCompDir, if_neg hne]
  exact Path.isAbsolute_ended h

/-- An entry is made of a name, in the directory with the entry's index. -/
structure Resolves (table : FileTable) (name : String) (entry : FileEntry) : Prop where
  name_ne : name ≠ ""
  path : entry.path = Path.inside (table.directoryAt entry.directoryIndex) name

/-- A table whose directories are placed and whose files are made of the given names in their
order. -/
structure ResolvesAll (table : FileTable) (names : List String) : Prop where
  directories : ∀ directory ∈ table.directories, Path.Placed table.compDir directory
  files : List.Forall₂ table.Resolves names table.files

theorem Resolves.congr {other : FileTable} (hcomp : other.compDir = table.compDir)
    (hdirs : other.directories = table.directories) {name : String} {entry : FileEntry}
    (h : table.Resolves name entry) : other.Resolves name entry := by
  constructor
  · exact h.name_ne
  · rw [h.path, directoryAt, directoryAt, hcomp, hdirs]

theorem resolves_of_entryOf {record : FileRecord} {entry : FileEntry}
    (h : table.entryOf record = .ok entry) : table.Resolves record.name entry := by
  obtain ⟨path, hpath, h⟩ := exists_of_bind_eq_ok h
  cases h
  constructor
  · exact Path.ne_of_resolveFile hpath
  · exact Path.eq_inside_of_resolveFile hpath

theorem ResolvesAll.isAbsolute_directoryAt (h : table.ResolvesAll names)
    (hcompDir : Path.isAbsolute table.compDir = true) (index : UInt64) :
    Path.isAbsolute (table.directoryAt index) = true := by
  unfold directoryAt
  cases hdirectory : table.directories[index.toNat]? with
  | none => exact hcompDir
  | some directory =>
    exact (h.directories directory (List.mem_of_getElem? hdirectory)).absolute hcompDir

theorem ResolvesAll.isAbsolute_files (h : table.ResolvesAll names)
    (hcompDir : Path.isAbsolute table.compDir = true) :
    ∀ entry ∈ table.files, Path.isAbsolute entry.path = true := by
  intro entry hentry
  obtain ⟨name, -, hresolves⟩ := exists_of_forall₂ h.files hentry
  rw [hresolves.path]
  exact Path.isAbsolute_inside (h.isAbsolute_directoryAt hcompDir _) name

/-- The files that records declare are made of the names of the records. -/
theorem GrownBy.resolvesAll {records : List FileRecord} (hgrown : grown.GrownBy table records)
    (h : table.ResolvesAll names) :
    grown.ResolvesAll (names ++ records.map (·.name)) := by
  obtain ⟨entries, hentries, hfiles⟩ := hgrown.files
  have hlate : List.Forall₂ table.Resolves (records.map (·.name)) entries := by
    rw [List.forall₂_map_left_iff]
    exact (forall₂_of_mapM_eq_ok hentries).imp fun _ _ => resolves_of_entryOf
  constructor
  case directories =>
    rw [hgrown.directories, hgrown.compDir]
    exact h.directories
  case files =>
    rw [hfiles]
    exact (List.rel_append h.files hlate).imp fun _ _ =>
      Resolves.congr hgrown.compDir hgrown.directories

end FileTable
end DwarfLines
