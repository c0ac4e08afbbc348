import Mathlib
import DwarfLines.Proofs.Header.DeclaredLists
import DwarfLines.Proofs.Table.LateRecords

/-!
# Paths that stay resolved

Every file of a table has its path from a name, which stands in a list of the header, is that of the
unit, or is the operand of an instruction. The path is the name itself if that is absolute, and else
the name in the directory that the file's index tells. Directories are ended and never change. What
is added while the program runs is resolved in the same directories, so all this holds for as long
as the table lives.
-/

namespace DwarfLines

/-- The names of the files that the lists of a unit declare, as they are read from the unit. -/
inductive LineTable.DeclaresNames (context : UnitContext) (table : LineTable) : List String → Prop
  | legacy {directories : List String} {records : List FileRecord} {middle last : Cursor}
    (version : table.program.header.version ≠ 5)
    (directoryNames : LegacyLists.directoryNames
      (table.program.cursorAt table.program.header.tablesOffset) = .ok (directories, middle))
    (fileRecords : LegacyLists.fileRecords middle = .ok (records, last)) :
    DeclaresNames context table (context.name :: records.map (·.name))
  | described {directoryList fileList : ListPieces}
    (version : table.program.header.version = 5)
    (lists : table.HasLists context directoryList fileList) :
    DeclaresNames context table (fileList.contents.map (·.path))

namespace FileTable

/-- A file that has its path from a name, which is relative to a directory of the table or to the
compile directory. -/
structure HasPath (context : UnitContext) (table : FileTable) (name : String) (entry : FileEntry) :
    Prop where
  ne : entry.path ≠ ""
  path : entry.path =
    if Path.isAbsolute name then name
    else (table.directories[entry.directoryIndex.toNat]?.getD (knownCompDir context.compDir)) ++ name

/-- What holds of the paths of a table whose files have their paths from the given names, in their
order. -/
structure PathsHold (context : UnitContext) (table : FileTable) (names : List String) : Prop where
  directory_ne : ∀ directory ∈ table.directories, directory ≠ ""
  directory_ended : ∀ directory ∈ table.directories,
    directory.toList.getLast? = some '/' ∨ directory.toList.getLast? = some '\\'
  files : List.Forall₂ (table.HasPath context) names table.files
  absolute : Path.isAbsolute context.compDir = true ∨
      Path.isAbsolute (knownCompDir context.compDir) = true →
    (∀ directory ∈ table.directories, Path.isAbsolute directory = true) ∧
      ∀ entry ∈ table.files, Path.isAbsolute entry.path = true

variable {context : UnitContext} {table : FileTable} {names : List String}

theorem Resolves.hasPath {name : String} {entry : FileEntry}
    (hcompDir : table.compDir = knownCompDir context.compDir) (h : table.Resolves name entry) :
    table.HasPath context name entry := by
  constructor
  case ne =>
    rw [h.path]
    exact Path.inside_ne _ h.name_ne
  case path =>
    rw [h.path, Path.inside, directoryAt, hcompDir]

theorem ResolvesAll.pathsHold (hcompDir : table.compDir = knownCompDir context.compDir)
    (h : table.ResolvesAll names) : table.PathsHold context names := by
  constructor
  case directory_ne =>
    intro directory hdirectory
    exact Path.ne_of_endsWithSeparator (h.directories directory hdirectory).ended
  case directory_ended =>
    intro directory hdirectory
    exact Path.endsWithSeparator_iff.mp (h.directories directory hdirectory).ended
  case files => exact h.files.imp fun _ _ hresolves => hresolves.hasPath hcompDir
  case absolute =>
    intro habsolute
    have hknown : Path.isAbsolute table.compDir = true := by
      rw [hcompDir]
      exact habsolute.elim isAbsolute_knownCompDir id
    constructor
    · intro directory hdirectory
      exact (h.directories directory hdirectory).absolute hknown
    · exact h.isAbsolute_files hknown

end FileTable

namespace LineTable

variable {order : ByteOrder} {lines : List UInt8} {offset : ℕ} {context : UnitContext}
  {table : LineTable}

/-- The files of a table that was just read have their paths from the names in its unit. -/
theorem exists_names_of_parse (h : parse order lines offset context = .ok table) :
    ∃ names, table.DeclaresNames context names ∧ table.files.ResolvesAll names ∧
      table.files.compDir = FileTable.knownCompDir context.compDir := by
  by_cases hversion : table.program.header.version = 5
  · obtain ⟨directoryList, fileList, hlists, hdescribed⟩ := exists_describedBy_of_parse h hversion
    exact ⟨_, .described hversion hlists, hdescribed.resolvesAll, hdescribed.compDir⟩
  · obtain ⟨-, directories, records, hcomes⟩ := exists_comesOf_of_parse h hversion
    obtain ⟨middle, last, hdirectories, hrecords⟩ := hcomes.reads
    exact ⟨_, .legacy hversion hdirectories hrecords, hcomes.resolvesAll, hcomes.compDir_eq⟩

/-- Whatever is done with a table, its directories are ended, and each of its files has its path
from a name in the unit's lists or from the name of a record that an instruction of the program
declares. Under an absolute compile directory all of them are absolute. -/
theorem paths_hold (hparse : parse order lines offset context = .ok table) :
    ∃ names, table.DeclaresNames context names ∧
      ∀ (operations : List Operation) (current : LineTable),
        ((Session.ofTable table).performAll operations).shared = some current →
        ∃ late : List FileRecord,
          (∀ record ∈ late, Instruction.DeclaresFrom table.program.header.toParameters
            table.program.beginning record) ∧
          current.files.PathsHold context (names ++ late.map (·.name)) := by
  obtain ⟨names, hnames, hresolves, hcompDir⟩ := exists_names_of_parse hparse
  refine ⟨names, hnames, ?_⟩
  intro operations current hcurrent
  obtain ⟨late, htakes⟩ := Session.exists_takes hcurrent
  refine ⟨late, ?_, ?_⟩
  · intro record hrecord
    exact (htakes.declared record hrecord).2
  · have hgrown := htakes.grownBy
    exact (hgrown.resolvesAll hresolves).pathsHold (hgrown.compDir.trans hcompDir)

/-- A drive without a separator as the compile directory, a file in a relative directory, one in a
directory that there is not, and one that the program declares with an absolute name. -/
theorem paths_hold_on_drive :
    ∃ table current names, ∃ late : List FileRecord, parse .little
        [39, 0, 0, 0, 2, 0, 20, 0, 0, 0, 1, 1, 0, 1, 2, 0, 105, 0, 0, 97, 0, 1, 0, 0, 98, 0, 9, 0, 0,
          0, 0, 7, 3, 92, 100, 0, 0, 0, 0, 1, 0, 1, 1] 0
        { compDir := "C:", name := "u" } = .ok table ∧
      ((Session.ofTable table).performAll [.rows]).shared = some current ∧
      table.DeclaresNames { compDir := "C:", name := "u" } names ∧
      (∀ record ∈ late, Instruction.DeclaresFrom table.program.header.toParameters
        table.program.beginning record) ∧
      current.files.PathsHold { compDir := "C:", name := "u" } (names ++ late.map (·.name)) ∧
      current.files.directories = ["C:/", "C:/i/"] ∧
      current.files.files.map (·.path) = ["C:/u", "C:/i/a", "C:/b", "\\d"] := by
  have hknown : (parse .little
        [39, 0, 0, 0, 2, 0, 20, 0, 0, 0, 1, 1, 0, 1, 2, 0, 105, 0, 0, 97, 0, 1, 0, 0, 98, 0, 9, 0, 0,
          0, 0, 7, 3, 92, 100, 0, 0, 0, 0, 1, 0, 1, 1] 0
        { compDir := "C:", name := "u" }).map (fun table =>
      decide (table.trace.files.directories = ["C:/", "C:/i/"] ∧
        table.trace.files.files.map (·.path) = ["C:/u", "C:/i/a", "C:/b", "\\d"])) = .ok true := by
    decide +kernel
  obtain ⟨table, hparse, hfacts⟩ := exists_of_map_eq_ok hknown
  obtain ⟨hdirectories, hpaths⟩ := of_decide_eq_true hfacts
  have hcurrent : ((Session.ofTable table).performAll [.rows]).shared =
    some { table with files := table.trace.files } := rfl
  obtain ⟨names, hnames, hhold⟩ := paths_hold hparse
  obtain ⟨late, hlate, hcurrentHolds⟩ := hhold _ _ hcurrent
  exact ⟨table, _, names, late, hparse, hcurrent, hnames, hlate, hcurrentHolds, hdirectories, hpaths⟩

end LineTable
end DwarfLines
