import Mathlib
import DwarfLines.Proofs.Header.Locality
import DwarfLines.Proofs.Header.UnitReading

/-!
# The fields of a header that was read

Reading a header passes its fields one after another, and each field of the encoding is the one
that the value was read from. So the bytes of an accepted unit are those of a layout, as long as
its lists end where the program begins or before: every accepted unit could have been written.
Where the lists reach into the program only the two lengths in front are not those of a layout.
-/

namespace DwarfLines

namespace Reader

variable {α : Type}

theorem Local.passes {ε : Type} {reader : Reader ε α} (hreader : reader.Local) {c d : Cursor}
    {a : α} (h : reader c = .ok (a, d)) {bytes : List UInt8} (hrest : c.rest = bytes ++ d.rest) :
    c.Passes bytes d := by
  obtain ⟨taken, hpasses, -⟩ := hreader h
  obtain rfl : taken = bytes := List.append_cancel_right (hpasses.rest.symm.trans hrest)
  exact hpasses

theorem passes_of_fixed {order : ByteOrder} {width n : ℕ} {c d : Cursor}
    (h : fixed order width c = .ok (n, d)) : c.Passes (order.bytes width n) d :=
  (local_fixed order width).passes h (bytes_of_fixed h).2

theorem passes_of_uint16 {order : ByteOrder} {n : UInt16} {c d : Cursor}
    (h : uint16 order c = .ok (n, d)) : c.Passes (order.bytes 2 n.toNat) d := by
  obtain ⟨value, last, hvalue, h⟩ := bind_eq_ok.1 h
  cases h
  have hlt : value < 2 ^ 16 := (bytes_of_fixed hvalue).1
  rw [UInt16.toNat_ofNat_of_lt' hlt]
  exact passes_of_fixed hvalue

theorem passes_of_initialLength {order : ByteOrder} {length : ℕ} {format : DwarfFormat}
    {c d : Cursor} (h : initialLength order c = .ok ((length, format), d)) :
    c.Passes (format.lengthBytes order length) d :=
  (local_initialLength order).passes h (bytes_of_initialLength h).2

end Reader

namespace HeaderPrologue

def fieldBytes (order : ByteOrder) (prologue : HeaderPrologue) : List UInt8 :=
  prologue.format.lengthBytes order prologue.unitLength ++
    order.bytes 2 prologue.version.toNat ++
    (if prologue.version = 5 then [prologue.addressSize, prologue.segmentSelectorSize] else []) ++
    order.bytes prologue.format.wordSize prologue.headerLength

/-- What is known of the fields before the parameters, read between two places. -/
structure FoundBetween (order : ByteOrder) (size : ℕ) (context : UnitContext) (start last : Cursor)
    (prologue : HeaderPrologue) : Prop where
  passes : start.Passes (prologue.fieldBytes order) last
  unitLength : prologue.unitLength ≤ prologue.format.maxLength
  version : 2 ≤ prologue.version ∧ prologue.version ≤ 5
  addressSize : prologue.version ≠ 5 → prologue.addressSize = context.addressSize
  segmentSelectorSize : prologue.version ≠ 5 → prologue.segmentSelectorSize = 0
  programOffset : prologue.programOffset = last.offset + prologue.headerLength
  programOffset_le : prologue.programOffset ≤ size

theorem passes_of_readSizes {version : UInt16} {context : UnitContext} {start last : Cursor}
    {addressSize selectorSize : UInt8}
    (h : readSizes version context start = .ok ((addressSize, selectorSize), last)) :
    start.Passes (if version = 5 then [addressSize, selectorSize] else []) last ∧
      (version ≠ 5 → addressSize = context.addressSize) ∧ (version ≠ 5 → selectorSize = 0) := by
  unfold readSizes at h
  split_ifs at h ⊢ with hversion
  · obtain ⟨first, middle, hfirst, h⟩ := Reader.bind_eq_ok.1 h
    obtain ⟨second, finish, hsecond, h⟩ := Reader.bind_eq_ok.1 h
    cases h
    have hpasses := (Reader.passes_of_byte (Reader.lift_eq_ok.1 hfirst)).trans
      (Reader.passes_of_byte (Reader.lift_eq_ok.1 hsecond))
    exact ⟨hpasses, fun hne => absurd hversion hne, fun hne => absurd hversion hne⟩
  · cases h
    exact ⟨.refl _, fun _ => rfl, fun _ => rfl⟩

theorem foundBetween_of_read {order : ByteOrder} {size : ℕ} {context : UnitContext}
    {start last : Cursor} {prologue : HeaderPrologue}
    (h : read order size context start = .ok (prologue, last)) :
    prologue.FoundBetween order size context start last := by
  obtain ⟨⟨unitLength, format⟩, second, hlength, h⟩ := Reader.bind_eq_ok.1 h
  obtain ⟨version, third, hversion, h⟩ := Reader.bind_eq_ok.1 h
  split_ifs at h with hrange
  · cases h
  · obtain ⟨⟨addressSize, selectorSize⟩, fourth, hsizes, h⟩ := Reader.bind_eq_ok.1 h
    obtain ⟨headerLength, fifth, hheader, h⟩ := Reader.bind_eq_ok.1 h
    obtain ⟨_, _, hoffset, h⟩ := Reader.bind_eq_ok.1 h
    cases hoffset
    split_ifs at h with hsize
    · cases h
      obtain ⟨hlow, hhigh⟩ := not_or.mp hrange
      obtain ⟨hpassSizes, haddress, hselector⟩ := passes_of_readSizes hsizes
      have hpassLength := Reader.passes_of_initialLength (Reader.lift_eq_ok.1 hlength)
      have hfits := (Reader.bytes_of_initialLength (Reader.lift_eq_ok.1 hlength)).1
      have hpassVersion := Reader.passes_of_uint16 (Reader.lift_eq_ok.1 hversion)
      have hpassHeader := Reader.passes_of_fixed (Reader.lift_eq_ok.1 hheader)
      exact ⟨((hpassLength.trans hpassVersion).trans hpassSizes).trans hpassHeader, hfits,
        ⟨UInt16.not_lt.mp hlow, UInt16.not_lt.mp hhigh⟩, haddress, hselector, rfl, hsize⟩
    · cases h

end HeaderPrologue

namespace Parameters

def fieldBytes (parameters : Parameters) (defaultIsStmt : UInt8) : List UInt8 :=
  parameters.minimumInstructionLength ::
    (if parameters.version < 4 then [] else [parameters.maximumOperations]) ++
    [defaultIsStmt, parameters.lineBase.toUInt8, parameters.lineRange, parameters.opcodeBase]

/-- What is known of parameters that were read between two places. -/
structure FoundBetween (order : ByteOrder) (version : UInt16) (addressSize : UInt8)
    (start last : Cursor) (parameters : Parameters) : Prop where
  passes : ∃ byte : UInt8, start.Passes (parameters.fieldBytes byte) last ∧
    parameters.defaultIsStmt = (byte != 0)
  order : parameters.order = order
  version : parameters.version = version
  addressSize : parameters.addressSize = addressSize
  maximumOperations_ne : parameters.maximumOperations ≠ 0
  maximumOperations_early : parameters.version < 4 → parameters.maximumOperations = 1
  lineRange_ne : parameters.lineRange ≠ 0
  opcodeBase_ne : parameters.opcodeBase ≠ 0

theorem FoundBetween.eq {order : ByteOrder} {version : UInt16} {addressSize : UInt8}
    {start last : Cursor} {parameters : Parameters}
    (h : parameters.FoundBetween order version addressSize start last) :
    parameters = { parameters with
      order, version, addressSize
      maximumOperations := if version < 4 then 1 else parameters.maximumOperations } := by
  obtain ⟨-, rfl, rfl, rfl, -, hearly, -⟩ := h
  split_ifs with hversion
  · rw [← hearly hversion]
  · rfl

theorem passes_of_readMaximumOperations {version : UInt16} {maximum : UInt8} {start last : Cursor}
    (h : readMaximumOperations version start = .ok (maximum, last)) :
    start.Passes (if version < 4 then [] else [maximum]) last ∧ (version < 4 → maximum = 1) := by
  unfold readMaximumOperations at h
  split_ifs at h ⊢ with hversion
  · cases h
    exact ⟨.refl _, fun _ => rfl⟩
  · exact ⟨Reader.passes_of_byte (Reader.lift_eq_ok.1 h), fun hlt => absurd hlt hversion⟩

theorem foundBetween_of_read {order : ByteOrder} {version : UInt16} {addressSize : UInt8}
    {start last : Cursor} {parameters : Parameters}
    (h : read order version addressSize start = .ok (parameters, last)) :
    parameters.FoundBetween order version addressSize start last := by
  obtain ⟨minimum, second, hminimum, h⟩ := Reader.bind_eq_ok.1 h
  obtain ⟨maximum, third, hmaximum, h⟩ := Reader.bind_eq_ok.1 h
  split_ifs at h with hzero
  · cases h
  · obtain ⟨byte, fourth, hbyte, h⟩ := Reader.bind_eq_ok.1 h
    obtain ⟨base, fifth, hbase, h⟩ := Reader.bind_eq_ok.1 h
    obtain ⟨range, sixth, hrange, h⟩ := Reader.bind_eq_ok.1 h
    split_ifs at h with hzeroRange
    · cases h
    · obtain ⟨opcodeBase, seventh, hopcode, h⟩ := Reader.bind_eq_ok.1 h
      split_ifs at h with hzeroBase
      · cases h
      · cases h
        obtain ⟨hpassMaximum, hearly⟩ := passes_of_readMaximumOperations hmaximum
        have passes {c d : Cursor} {b : UInt8}
            (hread : (liftM Reader.byte : Reader LineError UInt8) c = .ok (b, d)) :
            c.Passes [b] d := Reader.passes_of_byte (Reader.lift_eq_ok.1 hread)
        have hpasses := ((passes hminimum).trans hpassMaximum).trans
          ((passes hbyte).trans ((passes hbase).trans ((passes hrange).trans (passes hopcode))))
        refine ⟨⟨byte, ?_, ?_⟩, rfl, rfl, rfl, hzero, hearly, hzeroRange, hzeroBase⟩
        · simpa [fieldBytes] using hpasses
        · simp [bne, beq_eq_decide]

end Parameters

namespace Header

theorem passes_of_readOperandCount {opcode : ℕ} {count : UInt8} {start last : Cursor}
    (h : readOperandCount opcode start = .ok (count, last)) :
    start.Passes [count] last ∧
      ∀ known, StandardOpcode.ofCode? (UInt8.ofNat opcode) = some known →
        count = known.operandCount := by
  obtain ⟨found, second, hfound, h⟩ := Reader.bind_eq_ok.1 h
  have hpasses := Reader.passes_of_byte (Reader.lift_eq_ok.1 hfound)
  cases hknown : StandardOpcode.ofCode? (UInt8.ofNat opcode) with
  | none =>
    simp only [hknown] at h
    cases h
    exact ⟨hpasses, nofun⟩
  | some known =>
    simp only [hknown] at h
    split_ifs at h with hsame
    · cases h
      refine ⟨hpasses, fun other hother => ?_⟩
      cases hother
      exact hsame
    · cases h

theorem passes_of_readOperandCounts {opcode number : ℕ} {counts : List UInt8}
    {start last : Cursor} (h : readOperandCounts opcode number start = .ok (counts, last)) :
    start.Passes counts last ∧ counts.length = number ∧ Agree opcode counts := by
  induction number generalizing opcode counts start with
  | zero =>
    cases h
    exact ⟨.refl _, rfl, nofun⟩
  | succ number ih =>
    obtain ⟨first, second, hfirst, h⟩ := Reader.bind_eq_ok.1 h
    obtain ⟨more, third, hmore, h⟩ := Reader.bind_eq_ok.1 h
    cases h
    obtain ⟨hpassFirst, hknown⟩ := passes_of_readOperandCount hfirst
    obtain ⟨hpassMore, hlength, hagree⟩ := ih hmore
    refine ⟨hpassFirst.trans hpassMore, congrArg (· + 1) hlength, ?_⟩
    intro i hi known hsome
    cases i with
    | zero => exact hknown known hsome
    | succ i =>
      rw [show opcode + (i + 1) = opcode + 1 + i by omega] at hsome
      exact hagree i (Nat.lt_of_succ_lt_succ hi) known hsome

end Header

namespace UnitLayout

/-- The fields before those that the header's length covers, with any two lengths. -/
def frontBytes (layout : UnitLayout) (unitLength headerLength : ℕ) : List UInt8 :=
  layout.format.lengthBytes layout.order unitLength ++
    layout.order.bytes 2 layout.version.toNat ++ layout.sizeBytes ++
    layout.order.bytes layout.format.wordSize headerLength

theorem length_frontBytes (layout : UnitLayout) (unitLength headerLength : ℕ) :
    (layout.frontBytes unitLength headerLength).length = layout.countedOffset := by
  simp [frontBytes, countedOffset, DwarfFormat.length_lengthBytes, Nat.add_assoc]

/-- The fields of a layout are those of a header that was read from some bytes, and its program is
all that stands behind the lists, wherever the header says that the program begins. -/
structure Explains (layout : UnitLayout) (context : UnitContext) (bytes : List UInt8)
    (header : Header) (files : FileTable) : Prop where
  wellFormed : layout.WellFormed
  gap : layout.gap = []
  eq_bytes : bytes = layout.frontBytes header.unitLength header.headerLength ++ layout.scalarBytes ++
    layout.tables ++ layout.program
  eq_header : header =
    { layout.header context.addressSize header.directoryFormat header.fileFormat with
      unitLength := header.unitLength
      headerLength := header.headerLength
      programOffset := layout.countedOffset + header.headerLength }
  lists : (Header.readLists (layout.prologue context.addressSize) layout.order context).Reads
    layout.tablesOffset layout.tables (header.directoryFormat, header.fileFormat, files)

/-- Every header that is read is that of a layout. -/
theorem exists_explains {order : ByteOrder} {size : ℕ} {context : UnitContext}
    {bytes : List UInt8} {header : Header} {files : FileTable} {last : Cursor}
    (h : Header.read order size context (Cursor.start bytes) = .ok ((header, files), last)) :
    ∃ layout : UnitLayout, layout.order = order ∧ layout.Explains context bytes header files ∧
      last.offset = layout.tablesOffset + layout.tables.length ∧
      header.programOffset ≤ size := by
  obtain ⟨prologue, second, hprologue, h⟩ := Reader.bind_eq_ok.1 h
  obtain ⟨parameters, third, hparameters, h⟩ := Reader.bind_eq_ok.1 h
  obtain ⟨counts, fourth, hcounts, h⟩ := Reader.bind_eq_ok.1 h
  obtain ⟨⟨directoryFormat, fileFormat, table⟩, fifth, hlists, h⟩ := Reader.bind_eq_ok.1 h
  cases h
  have hfront := HeaderPrologue.foundBetween_of_read hprologue
  have hmiddle := Parameters.foundBetween_of_read hparameters
  obtain ⟨hpassCounts, hlength, hagree⟩ := Header.passes_of_readOperandCounts hcounts
  obtain ⟨byte, hpassParameters, hstmt⟩ := hmiddle.passes
  obtain ⟨tables, hpassTables, hreads⟩ := Header.local_readLists prologue order context hlists
  let layout : UnitLayout :=
    { order, format := prologue.format, version := prologue.version
      addressSize := prologue.addressSize, segmentSelectorSize := prologue.segmentSelectorSize
      minimumInstructionLength := parameters.minimumInstructionLength
      maximumOperations := parameters.maximumOperations, defaultIsStmt := byte
      lineBase := parameters.lineBase, lineRange := parameters.lineRange
      opcodeBase := parameters.opcodeBase, operandCounts := counts, tables, gap := []
      program := last.rest }
  have hversion : parameters.version = layout.version := hmiddle.version
  have hscalars : layout.scalarBytes = parameters.fieldBytes byte ++ counts := by
    simp [scalarBytes, Parameters.fieldBytes, hversion, layout]
  have hfrontBytes : prologue.fieldBytes order =
      layout.frontBytes prologue.unitLength prologue.headerLength := rfl
  have hsecond : second.offset = layout.countedOffset := by
    rw [hfront.passes.offset, hfrontBytes, length_frontBytes]
    exact Nat.zero_add _
  have hfourth : fourth.offset = layout.tablesOffset := by
    rw [hpassCounts.offset, hpassParameters.offset, hsecond, tablesOffset, hscalars,
      List.length_append, Nat.add_assoc]
  have haddress : (layout.parameters context.addressSize).addressSize = prologue.addressSize := by
    by_cases hfive : prologue.version = 5
    · simp [UnitLayout.parameters, layout, hfive]
    · simp [UnitLayout.parameters, layout, hfive, hfront.addressSize hfive]
  have hselector : layout.foundSelectorSize = prologue.segmentSelectorSize := by
    by_cases hfive : prologue.version = 5
    · simp [foundSelectorSize, layout, hfive]
    · simp [foundSelectorSize, layout, hfive, hfront.segmentSelectorSize hfive]
  have hparts : layout.parameters context.addressSize = parameters := by
    rw [hmiddle.eq, ← haddress]
    simp only [UnitLayout.parameters, hstmt, layout]
  refine ⟨layout, rfl, ⟨?_, rfl, ?_, ?_, ?_⟩, ?_, ?_⟩
  · exact ⟨hfront.version, fun _ => hmiddle.maximumOperations_ne, hmiddle.lineRange_ne,
      hmiddle.opcodeBase_ne, hlength, hagree⟩
  · have hpasses := hfront.passes.trans (hpassParameters.trans (hpassCounts.trans hpassTables))
    have hrest : bytes = _ := hpasses.rest
    rw [hrest, hscalars, hfrontBytes]
    simp [layout]
  · rw [UnitLayout.header, hparts, hselector, ← hsecond, ← hfront.programOffset]
  · rw [← hfourth]
    unfold Header.readLists at hreads ⊢
    simp only [UnitLayout.prologue, haddress]
    exact hreads
  · rw [hpassTables.offset, hfourth]
  · exact hfront.programOffset_le

/-- The layout in which the first bytes behind the lists do not belong to the program. -/
def withGap (layout : UnitLayout) (count : ℕ) : UnitLayout :=
  { layout with gap := layout.program.take count, program := layout.program.drop count }

/-- Where the lists end before the program begins, the two lengths are those of a layout, too. -/
theorem Explains.body_withGap {layout : UnitLayout} {context : UnitContext} {bytes body : List UInt8}
    {header : Header} {files : FileTable} (h : layout.Explains context bytes header files)
    (hbytes : bytes = layout.format.lengthBytes layout.order header.unitLength ++ body)
    {count : ℕ} (hcount : count ≤ layout.program.length)
    (hheader : header.headerLength = layout.scalarBytes.length + layout.tables.length + count) :
    (layout.withGap count).countedBytes.length = header.headerLength ∧
      (layout.withGap count).body = body := by
  have hcounted : (layout.withGap count).countedBytes.length = header.headerLength := by
    change (layout.scalarBytes ++ layout.tables ++ layout.program.take count).length = _
    rw [List.length_append, List.length_append, List.length_take_of_le hcount, hheader]
  refine ⟨hcounted, ?_⟩
  have hfront := h.eq_bytes
  rw [hbytes, frontBytes, List.append_assoc, List.append_assoc, List.append_assoc,
    List.append_assoc, List.append_assoc] at hfront
  change layout.order.bytes 2 layout.version.toNat ++ layout.sizeBytes ++
    layout.order.bytes layout.format.wordSize (layout.withGap count).countedBytes.length ++
    (layout.scalarBytes ++ layout.tables ++ layout.program.take count) ++
    layout.program.drop count = _
  rw [hcounted, List.append_cancel_left hfront]
  simp

/-- A layout from which the unit of a table is written, lists and all. -/
structure Writes (layout : UnitLayout) (context : UnitContext) (table : LineTable) : Prop where
  wellFormed : layout.WellFormed
  fits : layout.fits = true
  eq_bytes : layout.bytes = table.program.bytes
  eq_header : table.program.header = layout.header context.addressSize
    table.program.header.directoryFormat table.program.header.fileFormat
  tablesEnd : table.program.tablesEnd = layout.tablesOffset + layout.tables.length
  lists : (Header.readLists (layout.prologue context.addressSize) layout.order context).Reads
    layout.tablesOffset layout.tables
    (table.program.header.directoryFormat, table.program.header.fileFormat, table.files)

namespace Writes

variable {layout : UnitLayout} {context : UnitContext} {table : LineTable}

theorem parameters_eq (h : layout.Writes context table) :
    table.program.header.toParameters = layout.parameters context.addressSize := by
  rw [h.eq_header]
  rfl

theorem order_eq (h : layout.Writes context table) : table.program.header.order = layout.order :=
  congrArg Parameters.order h.parameters_eq

theorem version_eq (h : layout.Writes context table) :
    table.program.header.version = layout.version :=
  congrArg Parameters.version h.parameters_eq

theorem format_eq (h : layout.Writes context table) :
    table.program.header.format = layout.format := by
  rw [h.eq_header]
  rfl

theorem programOffset_eq (h : layout.Writes context table) :
    table.program.header.programOffset = layout.programOffset := by
  rw [h.eq_header]
  rfl

theorem drop_programOffset (h : layout.Writes context table) :
    table.program.bytes.drop table.program.header.programOffset = layout.program := by
  rw [h.programOffset_eq, ← h.eq_bytes, layout.drop_programOffset]

end Writes

end UnitLayout

theorem isPrefix_of_unitBytes {order : ByteOrder} {lines bytes : List UInt8} {offset : ℕ}
    (h : unitBytes order lines offset = .ok bytes) : bytes <+: lines.drop offset := by
  obtain ⟨start, hstart, h⟩ := exists_of_bind_eq_ok h
  obtain ⟨-, rfl⟩ := Reader.at?_eq_ok.1 (LineError.ofRead_eq_ok.mp hstart)
  obtain ⟨⟨⟨length, format⟩, last⟩, -, h⟩ := exists_of_bind_eq_ok h
  dsimp only at h
  split_ifs at h
  obtain ⟨⟨taken, rest⟩, htake, h⟩ := exists_of_bind_eq_ok h
  cases h
  have hread := LineError.ofRead_eq_ok.mp htake
  unfold Reader.take at hread
  split_ifs at hread
  cases hread
  exact List.take_prefix _ _

namespace LineTable

variable {order : ByteOrder} {lines : List UInt8} {offset : ℕ} {context : UnitContext}
  {table : LineTable}

/-- The unit of a table is a body after its length, and the program begins in the body. -/
theorem exists_frame_of_parse (h : parse order lines offset context = .ok table) :
    ∃ body, table.program.bytes = table.program.header.format.frame order body ∧
      body.length ≤ table.program.header.format.maxLength ∧
      table.program.header.unitLength = body.length ∧ table.program.header.order = order ∧
      table.program.header.format.lengthSize ≤ table.program.header.programOffset := by
  obtain ⟨hbytes, rest, hread⟩ := read_of_parse h
  obtain ⟨format, body, hframe, hfits⟩ := exists_frame_of_unitBytes hbytes
  obtain ⟨horder, start, hstart, hbegins⟩ := Header.format_of_read hread
  have hinitial := Reader.initialLength_frame order hfits 0 []
  rw [List.append_nil, List.append_nil, ← hframe] at hinitial
  rw [Cursor.start, hinitial, Except.ok.injEq, Prod.mk.injEq, Prod.mk.injEq] at hstart
  obtain ⟨⟨hlength, hformat⟩, rfl⟩ := hstart
  rw [← hformat]
  exact ⟨body, hframe, hfits, hlength.symm, horder, (Nat.le_add_left _ _).trans hbegins⟩

theorem exists_explains_of_parse (h : parse order lines offset context = .ok table) :
    ∃ layout : UnitLayout, layout.order = order ∧
      layout.Explains context table.program.bytes table.program.header table.files ∧
      table.program.tablesEnd = layout.tablesOffset + layout.tables.length := by
  obtain ⟨-, rest, hread⟩ := read_of_parse h
  obtain ⟨layout, horder, hexplains, hend, -⟩ := UnitLayout.exists_explains hread
  exact ⟨layout, horder, hexplains, hend⟩

/-- An accepted unit whose lists end where its program begins or before is written from a layout. -/
theorem exists_writes_of_parse (h : parse order lines offset context = .ok table)
    (hends : table.program.tablesEnd ≤ table.program.header.programOffset) :
    ∃ layout : UnitLayout, layout.order = order ∧ layout.Writes context table := by
  obtain ⟨layout, horder, hexplains, hend⟩ := exists_explains_of_parse h
  obtain ⟨body, hframe, hfits, hlength, -, -⟩ := exists_frame_of_parse h
  obtain ⟨haccepted, -⟩ := accepted_of_parse h
  have hheader := hexplains.eq_header
  have hformat : table.program.header.format = layout.format := by rw [hheader]; rfl
  have hprogram : table.program.header.programOffset =
      layout.countedOffset + table.program.header.headerLength := by rw [hheader]
  rw [hformat, DwarfFormat.frame, ← hlength, ← horder] at hframe
  rw [UnitLayout.tablesOffset] at hend
  have hcount : table.program.header.programOffset - table.program.tablesEnd ≤
      layout.program.length := by
    have hle := haccepted.programOffset_le
    have hbytes := congrArg List.length hexplains.eq_bytes
    simp only [List.length_append, UnitLayout.length_frontBytes] at hbytes
    omega
  obtain ⟨hcounted, hbody⟩ := hexplains.body_withGap hframe hcount (by omega)
  obtain ⟨hversion, hmaximum, hrange, hbase, hcounts, hagree⟩ := hexplains.wellFormed
  refine ⟨layout.withGap (table.program.header.programOffset - table.program.tablesEnd), horder,
    ⟨⟨hversion, hmaximum, hrange, hbase, hcounts, hagree⟩, ?_, ?_, ?_, hend, hexplains.lists⟩⟩
  · rw [UnitLayout.fits, hbody, decide_eq_true_eq]
    exact hformat ▸ hfits
  · rw [UnitLayout.bytes, hbody, hframe, hlength]
    rfl
  · rw [UnitLayout.header, UnitLayout.programOffset, hbody, hcounted, ← hlength]
    exact hheader

end LineTable
end DwarfLines
