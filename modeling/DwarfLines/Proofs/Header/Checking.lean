import Mathlib
import DwarfLines.Proofs.Files.Checking
import DwarfLines.Report.Table

/-!
# Reading a header, checked

The operand counts are written into a table that is as long as the opcode base says, and a report
shows the table without its first entry. Neither leaves the table, because a header with an opcode
base of zero is refused before. Whatever is refused is refused for what stands in the unit.
-/

namespace DwarfLines

open CheckedReader (Checks checks_lift checks_pure)

namespace Header

def readOperandCountsInto? (counts : List UInt8) (opcode : ℕ) : ℕ → CheckedReader (List UInt8)
  | 0 => pure counts
  | number + 1 => do
    let found ← readOperandCount opcode
    let more ← (replaceAt? counts opcode found : Option (List UInt8))
    readOperandCountsInto? more (opcode + 1) number

/-- Reads the header of a unit and the files it begins with; every place in the table of operand
counts is checked. -/
def read? (order : ByteOrder) (size : ℕ) (context : UnitContext) :
    CheckedReader (Header × FileTable) := do
  let prologue ← HeaderPrologue.read order size context
  let parameters ← Parameters.read order prologue.version prologue.addressSize
  let operandCounts ← readOperandCountsInto? (List.replicate parameters.opcodeBase.toNat 0) 1
    (parameters.opcodeBase.toNat - 1)
  let (directoryFormat, fileFormat, table) ← readLists prologue order context
  let header : Header :=
    { parameters with
      format := prologue.format
      unitLength := prologue.unitLength
      segmentSelectorSize := prologue.segmentSelectorSize
      headerLength := prologue.headerLength
      programOffset := prologue.programOffset
      operandCounts
      directoryFormat
      fileFormat }
  return (header, table)

/-- The fields of a header, one line each, with as many operand counts as a checked slice of the
table without its first entry has. -/
def lines? (header : Header) : Option (List String) := do
  let shown ← itemsFrom? header.operandCounts 1
  return { header with operandCounts := 0 :: shown }.lines

theorem checks_readOperandCountsInto? (before : List UInt8) (number : ℕ) :
    (readOperandCountsInto? (before ++ List.replicate number 0) before.length number).Checks
      (readOperandCounts before.length number >>= fun counts => pure (before ++ counts)) := by
  induction number generalizing before with
  | zero => exact checks_pure _
  | succ number ih =>
    rw [readOperandCounts, List.replicate_succ]
    simp only [bind_assoc, pure_bind]
    apply (checks_lift (readOperandCount before.length)).bind
    intro found
    apply Checks.some_bind (replaceAt?_append before _ 0 found)
    have hrest := ih (before ++ [found])
    simp only [List.append_assoc, List.singleton_append, List.length_append,
      List.length_singleton] at hrest
    exact hrest

theorem checks_read? (order : ByteOrder) (size : ℕ) (context : UnitContext) :
    (read? order size context).Checks (read order size context) := by
  apply (checks_lift (HeaderPrologue.read order size context)).bind
  intro prologue
  apply (checks_lift _).bind_gives (Parameters.gives_read order _ _)
  intro parameters hparameters
  obtain ⟨-, -, -, -, hbase⟩ := hparameters
  have hpos : parameters.opcodeBase.toNat ≠ 0 := fun hzero => hbase (UInt8.toNat_inj.mp hzero)
  obtain ⟨number, hnumber⟩ := Nat.exists_eq_succ_of_ne_zero hpos
  have hcounts := checks_readOperandCountsInto? [0] number
  rw [hnumber]
  apply Checks.bind_map hcounts
  intro counts
  apply (checks_lift (readLists prologue order context)).bind
  intro lists
  exact checks_pure _

theorem external_readLists (prologue : HeaderPrologue) (order : ByteOrder)
    (context : UnitContext) : (readLists prologue order context).External := by
  unfold readLists
  split_ifs
  · have hpaths : EntryColumn.readDirectoryFormat.Gives fun columns =>
        ∀ column ∈ columns, EntryColumn.isPathForm column.form = true := by
      intro c columns d hread
      obtain ⟨column, -, rfl, -, hform, -⟩ := EntryColumn.exists_of_readDirectoryFormat hread
      intro other hother
      rw [List.mem_singleton.mp hother]
      exact hform
    have hallowed : EntryColumn.readFileFormat.Gives fun columns =>
        ∀ column ∈ columns, column.isAllowed = true := by
      intro c columns d hread
      exact (EntryColumn.exists_of_readFileFormat hread).2.1
    apply EntryColumn.external_readDirectoryFormat.bind_gives hpaths
    intro directoryFormat hdirectoryFormat
    apply (FileTable.external_readDirectories _ hdirectoryFormat context).bind
    intro table
    apply EntryColumn.external_readFileFormat.bind_gives hallowed
    intro fileFormat hfileFormat
    exact (FileTable.external_readFiles _ table hfileFormat).bind_pure _
  · exact (FileTable.external_readLegacy context).bind_pure _

theorem external_readOperandCounts (opcode number : ℕ) :
    (readOperandCounts opcode number).External := by
  induction number generalizing opcode with
  | zero => exact Reader.external_pure _
  | succ number ih =>
    have hcount : (readOperandCount opcode).External := by
      apply (Reader.external_lift _).bind
      intro found
      split
      · split_ifs
        · exact Reader.external_pure _
        · exact Reader.external_reject rfl
      · exact Reader.external_pure _
    exact hcount.bind fun _ => (ih (opcode + 1)).bind_pure _

theorem external_readPrologue (order : ByteOrder) (size : ℕ) (context : UnitContext) :
    (HeaderPrologue.read order size context).External := by
  apply (Reader.external_lift _).bind
  intro length
  apply (Reader.external_lift _).bind
  intro version
  split_ifs
  · exact Reader.external_reject rfl
  · have hsizes : (HeaderPrologue.readSizes version context).External := by
      unfold HeaderPrologue.readSizes
      split_ifs
      · exact (Reader.external_lift _).bind fun _ => (Reader.external_lift _).bind_pure _
      · exact Reader.external_pure _
    apply hsizes.bind
    intro sizes
    apply (Reader.external_lift _).bind
    intro headerLength
    apply Reader.external_offset.bind
    intro offset
    dsimp only
    split_ifs
    · exact Reader.external_pure _
    · exact Reader.external_reject rfl

theorem external_readParameters (order : ByteOrder) (version : UInt16) (addressSize : UInt8) :
    (Parameters.read order version addressSize).External := by
  apply (Reader.external_lift _).bind
  intro minimum
  have hmaximum : (Parameters.readMaximumOperations version).External := by
    unfold Parameters.readMaximumOperations
    split_ifs
    · exact Reader.external_pure _
    · exact Reader.external_lift _
  apply hmaximum.bind
  intro maximum
  split_ifs
  · exact Reader.external_reject rfl
  · apply (Reader.external_lift _).bind
    intro isStmt
    apply (Reader.external_lift _).bind
    intro lineBase
    apply (Reader.external_lift _).bind
    intro lineRange
    split_ifs
    · exact Reader.external_reject rfl
    · apply (Reader.external_lift _).bind
      intro opcodeBase
      split_ifs
      · exact Reader.external_reject rfl
      · exact Reader.external_pure _

theorem external_read (order : ByteOrder) (size : ℕ) (context : UnitContext) :
    (read order size context).External := by
  apply (external_readPrologue order size context).bind
  intro prologue
  apply (external_readParameters order _ _).bind
  intro parameters
  apply (external_readOperandCounts 1 _).bind
  intro counts
  exact (external_readLists prologue order context).bind_pure _

theorem lines?_eq {header : Header} (h : 0 < header.operandCounts.length) :
    header.lines? = some header.lines := by
  rw [lines?, itemsFrom?_of_le h]
  rfl

end Header

def LineTable.parse? (order : ByteOrder) (lines : List UInt8) (offset : ℕ)
    (context : UnitContext) : Option (Except LineError LineTable) :=
  ExceptT.run do
    let bytes ← ExceptT.mk (some (unitBytes order lines offset))
    let ((header, files), last) ← Header.read? order bytes.length context (Cursor.start bytes)
    return { program := { header, bytes, tablesEnd := last.offset }, files }

theorem LineTable.parse?_eq (order : ByteOrder) (lines : List UInt8) (offset : ℕ)
    (context : UnitContext) :
    parse? order lines offset context = some (parse order lines offset context) := by
  unfold parse? parse
  cases unitBytes order lines offset with
  | error e => rfl
  | ok bytes =>
    change ExceptT.run (ExceptT.bind (Header.read? order bytes.length context (Cursor.start bytes))
      _) = some ((Header.read order bytes.length context (Cursor.start bytes)).bind _)
    rw [Header.checks_read?]
    cases Header.read order bytes.length context (Cursor.start bytes) with
    | error e => rfl
    | ok result => rfl

theorem external_unitBytes (order : ByteOrder) (lines : List UInt8) (offset : ℕ) :
    External (unitBytes order lines offset) := by
  apply (external_ofRead _).bind
  intro start
  apply (external_ofRead _).bind
  intro found
  dsimp only
  split_ifs
  · exact (external_ofRead _).bind fun _ => external_ok _
  · exact external_error rfl

theorem LineTable.external_parse (order : ByteOrder) (lines : List UInt8) (offset : ℕ)
    (context : UnitContext) : External (parse order lines offset context) := by
  apply (external_unitBytes order lines offset).bind
  intro bytes
  exact External.bind (Header.external_read order bytes.length context _) fun _ => external_ok _

end DwarfLines
