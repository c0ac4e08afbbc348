import Mathlib
import DwarfLines.Files.DescribedLists

/-!
# Resolved paths

What the paths of directories and files come to once they are resolved. A name that is not empty
always resolves.
-/

namespace DwarfLines

namespace Path

/-- A directory, ended by a separator. -/
def ended (path : String) : String := if endsWithSeparator path then path else path ++ "/"

/-- A directory below the compile directory, unless it is absolute. -/
def below (compDir raw : String) : String :=
  if isAbsolute (ended raw) then ended raw else compDir ++ ended raw

/-- A file in a directory, unless it is absolute. -/
def inside (directory raw : String) : String :=
  if isAbsolute raw then raw else directory ++ raw

theorem isEmpty_eq_false {path : String} (h : path ≠ "") : path.isEmpty = false := by
  simpa using h

theorem normalizeDirectory_eq {path : String} (h : path ≠ "") :
    normalizeDirectory path = .ok (ended path) := by
  unfold normalizeDirectory ended
  rw [isEmpty_eq_false h]
  split_ifs <;> trivial

theorem eq_ended_of_normalizeDirectory {path found : String}
    (h : normalizeDirectory path = .ok found) : found = ended path := by
  by_cases hempty : path = ""
  · subst hempty
    cases h
  · rw [normalizeDirectory_eq hempty] at h
    exact (Except.ok.inj h).symm

theorem resolveDirectory_eq (compDir : String) {raw : String} (h : raw ≠ "") :
    resolveDirectory compDir raw = .ok (below compDir raw) := by
  unfold resolveDirectory
  rw [normalizeDirectory_eq h]
  rfl

theorem resolveFile_eq (directory : String) {raw : String} (h : raw ≠ "") :
    resolveFile directory raw = .ok (inside directory raw) := by
  unfold resolveFile inside
  rw [isEmpty_eq_false h]
  rfl

theorem eq_below_of_resolveDirectory {compDir raw found : String}
    (h : resolveDirectory compDir raw = .ok found) : found = below compDir raw := by
  by_cases hempty : raw = ""
  · subst hempty
    cases h
  · rw [resolveDirectory_eq compDir hempty] at h
    exact (Except.ok.inj h).symm

theorem ne_of_resolveFile {directory raw found : String}
    (h : resolveFile directory raw = .ok found) : raw ≠ "" := by
  rintro rfl
  cases h

theorem eq_inside_of_resolveFile {directory raw found : String}
    (h : resolveFile directory raw = .ok found) : found = inside directory raw := by
  by_cases hempty : raw = ""
  · subst hempty
    cases h
  · rw [resolveFile_eq directory hempty] at h
    exact (Except.ok.inj h).symm

end Path

namespace FileTable

/-- The compile directory that the paths of version 5 are relative to. -/
def knownCompDir (compDir : String) : String := if compDir = "" then "" else Path.ended compDir

theorem optionalCompDir_eq (compDir : String) :
    optionalCompDir compDir = .ok (knownCompDir compDir) := by
  unfold optionalCompDir knownCompDir
  by_cases h : compDir = ""
  · simp [h]
  · rw [if_neg h, Path.isEmpty_eq_false h]
    exact Path.normalizeDirectory_eq h

theorem exists_entryOf (table : FileTable) {record : FileRecord} (h : record.name ≠ "") :
    ∃ entry, table.entryOf record = .ok entry := by
  unfold entryOf
  rw [Path.resolveFile_eq _ h]
  exact ⟨_, rfl⟩

end FileTable
end DwarfLines
