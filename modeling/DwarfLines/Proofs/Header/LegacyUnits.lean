import Mathlib
import DwarfLines.Proofs.Files.LegacyReading
import DwarfLines.Proofs.Header.UnitReading

/-!
# Units before version 5

A unit of version 2, 3 or 4 is accepted with the fields it was written with. Its directories are
the compile directory and then the declared ones, and its files are the unit's own and then the
declared ones; the program begins right where it was put.
-/

namespace DwarfLines

namespace UnitLayout

variable {layout : UnitLayout}

theorem ne_five_of_lt (h : layout.version < 5) : layout.version ≠ 5 :=
  UInt16.ne_of_lt h

theorem reads_legacyLists {context : UnitContext} {bytes : List UInt8} {files : FileTable}
    (hversion : layout.version < 5) {offset : ℕ}
    (h : (FileTable.readLegacy context).Reads offset bytes files) :
    (Header.readLists (layout.prologue context.addressSize) layout.order context).Reads offset
      bytes ([], [], files) := by
  have hnot : ¬ (layout.prologue context.addressSize).version = 5 := ne_five_of_lt hversion
  unfold Header.readLists
  simp only [hnot, if_false]
  exact h.bind_pure _

end UnitLayout

/-- A unit before version 5 is accepted with its fields, and has the directories and files that
its lists declare behind those of the unit itself. -/
theorem LineTable.parse_legacy {layout : UnitLayout} {context : UnitContext}
    {declared : LegacyDeclarations} (hversion : layout.version < 5) (hwell : layout.WellFormed)
    (hfits : layout.fits = true) (hlength : layout.bytes.length < 2 ^ 64)
    (htables : layout.tables = declared.bytes) (hdeclared : declared.isWritable = true)
    (hdir : context.compDir ≠ "") (hname : context.name ≠ "") (before after : List UInt8) :
    ∃ table, parse layout.order (before ++ layout.bytes ++ after) before.length context =
        .ok table ∧
      table.program.header =
        { order := layout.order
          version := layout.version
          addressSize := context.addressSize
          minimumInstructionLength := layout.minimumInstructionLength
          maximumOperations := if layout.version < 4 then 1 else layout.maximumOperations
          defaultIsStmt := layout.defaultIsStmt != 0
          lineBase := layout.lineBase
          lineRange := layout.lineRange
          opcodeBase := layout.opcodeBase
          format := layout.format
          unitLength := layout.body.length
          segmentSelectorSize := 0
          headerLength := layout.countedBytes.length
          programOffset := layout.bytes.length - layout.program.length
          operandCounts := 0 :: layout.operandCounts
          directoryFormat := []
          fileFormat := [] } ∧
      table.program.bytes = layout.bytes ∧
      table.program.bytes.drop table.program.header.programOffset = layout.program ∧
      table.files.directories =
        Path.ended context.compDir ::
          declared.directories.map (Path.below (Path.ended context.compDir)) ∧
      table.files.files =
        { path := Path.inside (Path.ended context.compDir) context.name, directoryIndex := 0 } ::
          declared.records.map fun record =>
            { path := Path.inside
                (table.files.directories[record.directoryIndex.toNat]?.getD
                  (Path.ended context.compDir)) record.name
              directoryIndex := record.directoryIndex
              timestamp := if record.timestamp = 0 then none else some record.timestamp
              size := if record.size = 0 then none else some record.size } := by
  have hread := FileTable.reads_legacy hdeclared hdir hname layout.tablesOffset
  have hlists := UnitLayout.reads_legacyLists hversion hread
  rw [← htables] at hlists
  have hplace : layout.programOffset = layout.bytes.length - layout.program.length := by
    rw [UnitLayout.bytes_eq, List.length_append, Nat.add_sub_cancel, List.length_append,
      UnitLayout.length_prologueBytes, UnitLayout.programOffset]
  refine ⟨_, UnitLayout.parse_eq hwell hfits hlength context hlists before after, ?_, rfl,
    layout.drop_programOffset, rfl, rfl⟩
  simp only [UnitLayout.header, UnitLayout.parameters, UnitLayout.foundSelectorSize,
    UnitLayout.ne_five_of_lt hversion, if_false, hplace]

/-- A unit of version 3 with a relative directory, a file in it whose time is unknown, and an
absolute file whose directory does not exist. -/
theorem LineTable.parse_legacy_relative :
    ∃ table, LineTable.parse .big
        [0, 0, 0, 33, 0, 3, 0, 0, 0, 23, 1, 1, 255, 4, 2, 0, 105, 110, 99, 0, 0,
          97, 0, 1, 0, 7, 47, 98, 0, 9, 5, 0, 0, 1, 0, 1, 1] 0 { compDir := "/s", name := "u" } =
          .ok table ∧
      table.program.header.maximumOperations = 1 ∧
      table.files.directories = ["/s/", "/s/inc/"] ∧
      table.files.files =
        [{ path := "/s/u", directoryIndex := 0 },
          { path := "/s/inc/a", directoryIndex := 1, size := some 7 },
          { path := "/b", directoryIndex := 9, timestamp := some 5 }] := by
  obtain ⟨table, hparse, hheader, -, -, hdirectories, hfiles⟩ := @LineTable.parse_legacy
      { order := .big, format := .dwarf32, version := 3, addressSize := 0
        segmentSelectorSize := 0, minimumInstructionLength := 1, maximumOperations := 0
        defaultIsStmt := 1, lineBase := -1, lineRange := 4, opcodeBase := 2, operandCounts := [0]
        tables := [105, 110, 99, 0, 0, 97, 0, 1, 0, 7, 47, 98, 0, 9, 5, 0, 0], gap := []
        program := [1, 0, 1, 1] }
      { compDir := "/s", name := "u" }
      { directories := ["inc"], records := [⟨"a", 1, 0, 7⟩, ⟨"/b", 9, 5, 0⟩] }
    (by decide)
    { version := by decide
      maximumOperations := fun h => absurd (by decide) h
      lineRange := by decide
      opcodeBase := by decide
      length_operandCounts := rfl
      operandCounts := by
        intro i hi known hknown
        obtain rfl : i = 0 := by simpa using hi
        cases hknown
        rfl }
    (by decide +kernel) (by decide +kernel) (by decide +kernel) (by decide +kernel) (by decide)
    (by decide) [] []
  have hknown : table.files.directories = ["/s/", "/s/inc/"] := by
    rw [hdirectories]
    decide +kernel
  refine ⟨table, Eq.trans ?_ hparse, by rw [hheader]; rfl, hknown, ?_⟩
  · decide +kernel
  · rw [hfiles, hknown]
    decide +kernel

end DwarfLines
