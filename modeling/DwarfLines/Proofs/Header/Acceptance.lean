import Mathlib
import DwarfLines.Proofs.Bytes.Gives
import DwarfLines.Table.LineTable

/-!
# What is known of an accepted table

A header is refused before any instruction runs if something in it would make the machine divide
by zero, mistake an extended instruction or start outside the unit. What is left to rely on is
collected here for every table that was read.
-/

namespace DwarfLines

namespace HeaderPrologue

theorem gives_read (order : ByteOrder) (size : ℕ) (context : UnitContext) :
    (read order size context).Gives fun prologue =>
      2 ≤ prologue.version ∧ prologue.version ≤ 5 ∧ prologue.programOffset ≤ size := by
  refine Reader.gives_bind fun length => Reader.gives_bind fun version => ?_
  split_ifs with hversion
  · exact Reader.gives_reject _
  · refine Reader.gives_bind fun sizes => Reader.gives_bind fun headerLength =>
      Reader.gives_bind fun offset => ?_
    dsimp only
    split_ifs with hsize
    · obtain ⟨hlow, hhigh⟩ := not_or.mp hversion
      exact Reader.gives_pure ⟨UInt16.not_lt.mp hlow, UInt16.not_lt.mp hhigh, hsize⟩
    · exact Reader.gives_reject _

end HeaderPrologue

namespace Parameters

theorem gives_read (order : ByteOrder) (version : UInt16) (addressSize : UInt8) :
    (read order version addressSize).Gives fun parameters =>
      parameters.order = order ∧ parameters.version = version ∧
        parameters.maximumOperations ≠ 0 ∧ parameters.lineRange ≠ 0 ∧
        parameters.opcodeBase ≠ 0 := by
  refine Reader.gives_bind fun minimum => Reader.gives_bind fun maximum => ?_
  split_ifs with hmaximum
  · exact Reader.gives_reject _
  · refine Reader.gives_bind fun isStmt => Reader.gives_bind fun base =>
      Reader.gives_bind fun range => ?_
    split_ifs with hrange
    · exact Reader.gives_reject _
    · refine Reader.gives_bind fun opcodeBase => ?_
      split_ifs with hbase
      · exact Reader.gives_reject _
      · exact Reader.gives_pure ⟨rfl, rfl, hmaximum, hrange, hbase⟩

end Parameters

namespace FileTable

/-- A file table that no pass has used. -/
structure Fresh (table : FileTable) : Prop where
  definedThrough : table.definedThrough = 0
  complete : table.complete = false
  fullScans : table.fullScans = 0

theorem gives_readLegacy (context : UnitContext) : (readLegacy context).Gives Fresh :=
  Reader.gives_bind fun _ => Reader.gives_bind fun _ => Reader.gives_bind fun _ =>
    Reader.gives_bind fun _ => Reader.gives_bind fun _ => Reader.gives_bind fun _ =>
      Reader.gives_pure ⟨rfl, rfl, rfl⟩

theorem gives_readDirectories (layout : FormLayout) (columns : List EntryColumn)
    (context : UnitContext) :
    (readDirectories layout columns context).Gives Fresh := by
  refine Reader.gives_bind fun compDir => Reader.gives_bind fun count => ?_
  split_ifs
  · exact Reader.gives_reject _
  · exact Reader.gives_bind fun _ => Reader.gives_pure ⟨rfl, rfl, rfl⟩

theorem gives_readFiles (layout : FormLayout) {table : FileTable} (h : table.Fresh)
    (columns : List EntryColumn) : (readFiles layout table columns).Gives Fresh := by
  refine Reader.gives_bind fun count => ?_
  split_ifs
  · exact Reader.gives_reject _
  · exact Reader.gives_bind fun _ =>
      Reader.gives_pure ⟨h.definedThrough, h.complete, h.fullScans⟩

end FileTable

namespace Header

theorem gives_readLists (prologue : HeaderPrologue) (order : ByteOrder) (context : UnitContext) :
    (readLists prologue order context).Gives fun lists => lists.2.2.Fresh := by
  unfold readLists
  split_ifs
  · refine Reader.gives_bind fun _ => (FileTable.gives_readDirectories _ _ _).bind fun table h => ?_
    refine Reader.gives_bind fun _ => (FileTable.gives_readFiles _ h _).bind fun table h => ?_
    exact Reader.gives_pure h
  · exact (FileTable.gives_readLegacy context).bind fun table h => Reader.gives_pure h

theorem gives_read (order : ByteOrder) (size : ℕ) (context : UnitContext) :
    (read order size context).Gives fun result =>
      2 ≤ result.1.version ∧ result.1.version ≤ 5 ∧ result.1.maximumOperations ≠ 0 ∧
        result.1.lineRange ≠ 0 ∧ result.1.opcodeBase ≠ 0 ∧ result.1.programOffset ≤ size ∧
        result.2.Fresh := by
  refine (HeaderPrologue.gives_read order size context).bind fun prologue hprologue => ?_
  refine (Parameters.gives_read order prologue.version prologue.addressSize).bind
    fun parameters hparameters => ?_
  obtain ⟨hlow, hhigh, hsize⟩ := hprologue
  obtain ⟨-, hversion, hmaximum, hrange, hbase⟩ := hparameters
  refine Reader.gives_bind fun counts => ?_
  refine (gives_readLists prologue order context).bind fun lists hlists => ?_
  exact Reader.gives_pure
    ⟨hversion ▸ hlow, hversion ▸ hhigh, hmaximum, hrange, hbase, hsize, hlists⟩

end Header

theorem length_of_unitBytes {order : ByteOrder} {lines bytes : List UInt8} {offset : ℕ}
    (h : unitBytes order lines offset = .ok bytes) : bytes.length < 2 ^ 64 := by
  obtain ⟨start, -, h⟩ := exists_of_bind_eq_ok h
  obtain ⟨⟨⟨length, format⟩, _⟩, -, h⟩ := exists_of_bind_eq_ok h
  dsimp only at h
  split_ifs at h with hfits
  obtain ⟨⟨taken, rest⟩, htaken, h⟩ := exists_of_bind_eq_ok h
  cases h
  have hlength := Reader.length_of_take (LineError.ofRead_eq_ok.mp htaken)
  rw [hlength]
  exact hfits

/-- What holds of every program whose header was accepted. -/
structure LineProgram.Accepted (program : LineProgram) : Prop where
  two_le_version : 2 ≤ program.header.version
  version_le_five : program.header.version ≤ 5
  maximumOperations : program.header.maximumOperations ≠ 0
  lineRange : program.header.lineRange ≠ 0
  opcodeBase : program.header.opcodeBase ≠ 0
  programOffset_le : program.header.programOffset ≤ program.bytes.length
  length_lt : program.bytes.length < 2 ^ 64

theorem LineTable.read_of_parse {order : ByteOrder} {lines : List UInt8} {offset : ℕ}
    {context : UnitContext} {table : LineTable}
    (h : parse order lines offset context = .ok table) :
    unitBytes order lines offset = .ok table.program.bytes ∧
      ∃ rest, Header.read order table.size context (Cursor.start table.program.bytes) =
        .ok ((table.program.header, table.files), ⟨table.program.tablesEnd, rest⟩) := by
  obtain ⟨bytes, hbytes, h⟩ := exists_of_bind_eq_ok h
  obtain ⟨⟨⟨header, files⟩, last⟩, hread, h⟩ := exists_of_bind_eq_ok h
  cases h
  exact ⟨hbytes, last.rest, hread⟩

theorem LineTable.fresh_of_parse {order : ByteOrder} {lines : List UInt8} {offset : ℕ}
    {context : UnitContext} {table : LineTable}
    (h : parse order lines offset context = .ok table) :
    table.program.Accepted ∧ table.files.Fresh := by
  obtain ⟨hbytes, rest, hread⟩ := read_of_parse h
  obtain ⟨hlow, hhigh, hmaximum, hrange, hbase, hsize, hfiles⟩ :=
    Header.gives_read order table.size context hread
  exact ⟨⟨hlow, hhigh, hmaximum, hrange, hbase, hsize, length_of_unitBytes hbytes⟩, hfiles⟩

/-- A table that was read has an accepted program, of which nothing was run yet. -/
theorem LineTable.accepted_of_parse {order : ByteOrder} {lines : List UInt8} {offset : ℕ}
    {context : UnitContext} {table : LineTable}
    (h : parse order lines offset context = .ok table) :
    table.program.Accepted ∧ table.files.definedThrough = 0 := by
  obtain ⟨haccepted, hfresh⟩ := fresh_of_parse h
  exact ⟨haccepted, hfresh.definedThrough⟩

end DwarfLines
