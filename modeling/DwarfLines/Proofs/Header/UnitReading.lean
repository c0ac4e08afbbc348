import Mathlib
import DwarfLines.Assembly.Unit
import DwarfLines.Proofs.Header.Framing
import DwarfLines.Table.LineTable

/-!
# Reading a written unit

A unit is written field by field, and each part of the header is read back from its fields. The
directory and file lists are left open: whatever is read from their bytes ends up in the table,
and the bytes between the lists and the program are passed over.
-/

namespace DwarfLines

namespace StandardOpcode

theorem mem_all (opcode : StandardOpcode) : opcode ∈ all := by
  cases opcode <;> decide

end StandardOpcode

namespace Header

def Agree (opcode : ℕ) (counts : List UInt8) : Prop :=
  ∀ i (h : i < counts.length) known,
    StandardOpcode.ofCode? (UInt8.ofNat (opcode + i)) = some known →
      counts[i] = known.operandCount

theorem Agree.tail {opcode : ℕ} {count : UInt8} {counts : List UInt8}
    (h : Agree opcode (count :: counts)) : Agree (opcode + 1) counts := by
  intro i hi known hknown
  have hnext := h (i + 1) (by simpa using hi) known
  rw [show opcode + (i + 1) = opcode + 1 + i by omega] at hnext
  exact hnext hknown

theorem reads_operandCount {opcode : ℕ} {count : UInt8}
    (h : ∀ known, StandardOpcode.ofCode? (UInt8.ofNat opcode) = some known →
      count = known.operandCount) (offset : ℕ) :
    (readOperandCount opcode).Reads offset [count] count := by
  unfold readOperandCount
  apply (Reader.reads_byte _ _).lift.bind_nil
  cases hknown : StandardOpcode.ofCode? (UInt8.ofNat opcode) with
  | none => exact Reader.reads_pure _ _
  | some known =>
    simp only [h known hknown, if_true]
    exact Reader.reads_pure _ _

theorem reads_operandCounts {opcode : ℕ} {counts : List UInt8} (h : Agree opcode counts)
    (offset : ℕ) :
    (readOperandCounts opcode counts.length).Reads offset counts counts := by
  induction counts generalizing opcode offset with
  | nil => exact Reader.reads_pure _ _
  | cons count counts ih =>
    have hfirst := reads_operandCount (h 0 (by simp)) offset
    change ((readOperandCount opcode >>= _) : Reader LineError _).Reads offset ([count] ++ counts) _
    exact hfirst.bind ((ih h.tail _).bind_pure _)

end Header

namespace UnitLayout

variable (layout : UnitLayout)

def foundSelectorSize : UInt8 := if layout.version = 5 then layout.segmentSelectorSize else 0

/-- Where the fields begin that the header's length covers. -/
def countedOffset : ℕ :=
  layout.format.lengthSize + 2 + layout.sizeBytes.length + layout.format.wordSize

def tablesOffset : ℕ := layout.countedOffset + layout.scalarBytes.length

def programOffset : ℕ := layout.countedOffset + layout.countedBytes.length

def prologue (contextSize : UInt8) : HeaderPrologue where
  format := layout.format
  unitLength := layout.body.length
  version := layout.version
  addressSize := (layout.parameters contextSize).addressSize
  segmentSelectorSize := layout.foundSelectorSize
  headerLength := layout.countedBytes.length
  programOffset := layout.programOffset

def header (contextSize : UInt8) (directoryFormat fileFormat : List EntryColumn) : Header :=
  { layout.parameters contextSize with
    format := layout.format
    unitLength := layout.body.length
    segmentSelectorSize := layout.foundSelectorSize
    headerLength := layout.countedBytes.length
    programOffset := layout.programOffset
    operandCounts := 0 :: layout.operandCounts
    directoryFormat
    fileFormat }

def prologueBytes : List UInt8 :=
  layout.format.lengthBytes layout.order layout.body.length ++
    layout.order.bytes 2 layout.version.toNat ++ layout.sizeBytes ++
    layout.order.bytes layout.format.wordSize layout.countedBytes.length

theorem length_prologueBytes : layout.prologueBytes.length = layout.countedOffset := by
  simp [prologueBytes, countedOffset, DwarfFormat.length_lengthBytes, ByteOrder.length_bytes,
    Nat.add_assoc]

theorem bytes_eq :
    layout.bytes = layout.prologueBytes ++ layout.countedBytes ++ layout.program := by
  simp [bytes, body, prologueBytes]

theorem bytes_eq_lists :
    layout.bytes = layout.prologueBytes ++ layout.scalarBytes ++ layout.tables ++
      (layout.gap ++ layout.program) := by
  simp [bytes_eq, countedBytes]

theorem length_lists :
    (layout.prologueBytes ++ layout.scalarBytes ++ layout.tables).length =
      layout.tablesOffset + layout.tables.length := by
  simp [tablesOffset, length_prologueBytes, Nat.add_assoc]

theorem programOffset_le : layout.programOffset ≤ layout.bytes.length := by
  simp [bytes_eq, programOffset, length_prologueBytes]

theorem drop_programOffset : layout.bytes.drop layout.programOffset = layout.program := by
  have hplace : layout.programOffset = (layout.prologueBytes ++ layout.countedBytes).length := by
    rw [List.length_append, length_prologueBytes, programOffset]
  rw [hplace, bytes_eq, List.drop_left]

variable {layout}

theorem reads_sizes (context : UnitContext) (offset : ℕ) :
    (HeaderPrologue.readSizes layout.version context).Reads offset layout.sizeBytes
      ((layout.parameters context.addressSize).addressSize, layout.foundSelectorSize) := by
  unfold HeaderPrologue.readSizes sizeBytes parameters foundSelectorSize
  by_cases hversion : layout.version = 5
  · simp only [hversion, if_true]
    apply Reader.Reads.byte_bind
    exact (Reader.reads_byte _ _).lift.bind_pure _
  · simp only [hversion, if_false]
    exact Reader.reads_pure _ _

theorem reads_prologue (hversion : 2 ≤ layout.version ∧ layout.version ≤ 5)
    (hfits : layout.fits = true) (context : UnitContext) :
    (HeaderPrologue.read layout.order layout.bytes.length context).Reads 0 layout.prologueBytes
      (layout.prologue context.addressSize) := by
  have hbody : layout.body.length ≤ layout.format.maxLength := by simpa [fits] using hfits
  have hnot : ¬ (layout.version < 2 ∨ 5 < layout.version) :=
    not_or.mpr ⟨UInt16.not_lt.mpr hversion.1, UInt16.not_lt.mpr hversion.2⟩
  have hcounted : layout.countedBytes.length < layout.format.offsetCount := by
    have hle : layout.countedBytes.length ≤ layout.body.length := by simp [body]; omega
    exact (hle.trans hbody).trans_lt layout.format.maxLength_lt
  unfold HeaderPrologue.read prologueBytes
  simp only [List.append_assoc]
  apply (Reader.reads_initialLength _ _ _ hbody).lift.bind
  apply (Reader.reads_uint16 _ _ _).lift.bind
  simp only [hnot, if_false]
  apply (reads_sizes context _).bind
  apply (Reader.reads_word _ _ _ hcounted).lift.bind_nil
  apply (Reader.reads_offset _).nil_bind
  have hplace : 0 + (layout.format.lengthBytes layout.order layout.body.length).length +
      (layout.order.bytes 2 layout.version.toNat).length + layout.sizeBytes.length +
      (layout.order.bytes layout.format.wordSize layout.countedBytes.length).length +
      layout.countedBytes.length = layout.programOffset := by
    simp [programOffset, countedOffset, DwarfFormat.length_lengthBytes, ByteOrder.length_bytes]
  simp only [hplace, layout.programOffset_le, if_true]
  exact Reader.reads_pure _ _

def parameterBytes (layout : UnitLayout) : List UInt8 :=
  layout.minimumInstructionLength ::
    (if layout.version < 4 then [] else [layout.maximumOperations]) ++
    [layout.defaultIsStmt, layout.lineBase.toUInt8, layout.lineRange, layout.opcodeBase]

theorem scalarBytes_eq (layout : UnitLayout) :
    layout.scalarBytes = layout.parameterBytes ++ layout.operandCounts := by
  simp [scalarBytes, parameterBytes]

theorem reads_maximumOperations
    (hmaximum : ¬ layout.version < 4 → layout.maximumOperations ≠ 0) (contextSize : UInt8)
    (offset : ℕ) :
    (Parameters.readMaximumOperations layout.version).Reads offset
        (if layout.version < 4 then [] else [layout.maximumOperations])
        (layout.parameters contextSize).maximumOperations ∧
      (layout.parameters contextSize).maximumOperations ≠ 0 := by
  unfold Parameters.readMaximumOperations parameters
  by_cases hversion : layout.version < 4
  · simp only [hversion, if_true]
    exact ⟨Reader.reads_pure _ _, by decide⟩
  · simp only [hversion, if_false]
    exact ⟨(Reader.reads_byte _ _).lift, hmaximum hversion⟩

theorem reads_parameters (hmaximum : ¬ layout.version < 4 → layout.maximumOperations ≠ 0)
    (hrange : layout.lineRange ≠ 0) (hbase : layout.opcodeBase ≠ 0) (contextSize : UInt8)
    (offset : ℕ) :
    (Parameters.read layout.order layout.version
        (layout.parameters contextSize).addressSize).Reads offset layout.parameterBytes
      (layout.parameters contextSize) := by
  have hoperations := reads_maximumOperations hmaximum contextSize
  unfold Parameters.read parameterBytes
  apply Reader.Reads.byte_bind
  refine (hoperations _).1.bind ?_
  simp only [(hoperations 0).2, if_false]
  apply Reader.Reads.byte_bind
  apply Reader.Reads.byte_bind
  apply Reader.Reads.byte_bind
  simp only [hrange, if_false]
  apply (Reader.reads_byte _ _).lift.bind_nil
  simp only [hbase, if_false]
  have hstmt : decide (layout.defaultIsStmt ≠ 0) = (layout.defaultIsStmt != 0) := by
    simp [bne, beq_eq_decide]
  simp only [hstmt]
  exact Reader.reads_pure _ _

/-- What the machine relies on, and that the operand counts are accepted. -/
structure WellFormed (layout : UnitLayout) : Prop where
  version : 2 ≤ layout.version ∧ layout.version ≤ 5
  maximumOperations : ¬ layout.version < 4 → layout.maximumOperations ≠ 0
  lineRange : layout.lineRange ≠ 0
  opcodeBase : layout.opcodeBase ≠ 0
  length_operandCounts : layout.operandCounts.length = layout.opcodeBase.toNat - 1
  operandCounts : Header.Agree 1 layout.operandCounts

theorem wellFormed_of_isWellFormed (h : layout.isWellFormed = true) : layout.WellFormed := by
  simp only [isWellFormed, Bool.and_eq_true, decide_eq_true_eq, bne_iff_ne, beq_iff_eq,
    List.all_eq_true, Bool.or_eq_true] at h
  obtain ⟨⟨⟨⟨⟨⟨hlow, hhigh⟩, hmaximum⟩, hrange⟩, hbase⟩, hlength⟩, hcounts⟩ := h
  have hlt := layout.opcodeBase.toNat_lt
  refine ⟨⟨hlow, hhigh⟩, fun _ => hmaximum, hrange, hbase, by omega, ?_⟩
  intro i hi known hknown
  have hcode : known.code.toNat = 1 + i := by
    rw [StandardOpcode.code_of_ofCode? hknown,
      UInt8.toNat_ofNat_of_lt' (by simp [UInt8.size]; omega)]
  rcases hcounts known known.mem_all with hle | hsome
  · have hle' := UInt8.le_iff_toNat_le.mp hle
    omega
  · rw [hcode, Nat.add_sub_cancel_left, List.getElem?_eq_getElem hi] at hsome
    exact Option.some.inj hsome

theorem reads_header (hwell : layout.WellFormed) (hfits : layout.fits = true)
    (context : UnitContext) {directoryFormat fileFormat : List EntryColumn} {files : FileTable}
    (hlists : (Header.readLists (layout.prologue context.addressSize) layout.order context).Reads
      layout.tablesOffset layout.tables (directoryFormat, fileFormat, files)) :
    (Header.read layout.order layout.bytes.length context).Reads 0
      (layout.prologueBytes ++ layout.scalarBytes ++ layout.tables)
      (layout.header context.addressSize directoryFormat fileFormat, files) := by
  unfold Header.read
  rw [scalarBytes_eq, List.append_assoc, List.append_assoc]
  apply (reads_prologue hwell.version hfits context).bind
  apply (reads_parameters hwell.maximumOperations hwell.lineRange hwell.opcodeBase
    context.addressSize _).bind
  have hcounts := Header.reads_operandCounts hwell.operandCounts
    (0 + layout.prologueBytes.length + layout.parameterBytes.length)
  rw [hwell.length_operandCounts] at hcounts
  apply hcounts.bind
  have hplace : 0 + layout.prologueBytes.length + layout.parameterBytes.length +
      layout.operandCounts.length = layout.tablesOffset := by
    rw [length_prologueBytes, tablesOffset, scalarBytes_eq, List.length_append]
    omega
  rw [hplace]
  exact hlists.bind_pure _

theorem unitBytes_append (hfits : layout.fits = true) (hlength : layout.bytes.length < 2 ^ 64)
    (before after : List UInt8) :
    unitBytes layout.order (before ++ layout.bytes ++ after) before.length = .ok layout.bytes := by
  have hbody : layout.body.length ≤ layout.format.maxLength := by simpa [fits] using hfits
  exact unitBytes_frame hbody hlength before after

/-- A written unit is accepted, with whatever its lists are read as. -/
theorem parse_eq (hwell : layout.WellFormed) (hfits : layout.fits = true)
    (hlength : layout.bytes.length < 2 ^ 64) (context : UnitContext)
    {directoryFormat fileFormat : List EntryColumn} {files : FileTable}
    (hlists : (Header.readLists (layout.prologue context.addressSize) layout.order context).Reads
      layout.tablesOffset layout.tables (directoryFormat, fileFormat, files))
    (before after : List UInt8) :
    LineTable.parse layout.order (before ++ layout.bytes ++ after) before.length context = .ok
      { program :=
          { header := layout.header context.addressSize directoryFormat fileFormat
            bytes := layout.bytes
            tablesEnd := layout.tablesOffset + layout.tables.length }
        files } := by
  have hheader := reads_header hwell hfits context hlists (layout.gap ++ layout.program)
  rw [← bytes_eq_lists, Nat.zero_add, length_lists] at hheader
  unfold LineTable.parse
  rw [unitBytes_append hfits hlength]
  change (Header.read layout.order layout.bytes.length context (Cursor.start layout.bytes)
    >>= _) = _
  rw [Cursor.start, hheader]
  rfl

end UnitLayout
end DwarfLines
