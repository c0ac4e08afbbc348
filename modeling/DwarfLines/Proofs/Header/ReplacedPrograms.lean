import Mathlib
import DwarfLines.Proofs.Header.Fields

/-!
# Units with another program

The fields and lists of a unit do not depend on its program, except for the length of the unit. So
a unit with another program is accepted if its format can still write its length, and nothing but
the program of its table differs.
-/

namespace DwarfLines

namespace LineTable

/-- Tables of units that differ in nothing but the program. -/
structure SharesFront (table head : LineTable) : Prop where
  parameters : table.program.header.toParameters = head.program.header.toParameters
  programOffset : table.program.header.programOffset = head.program.header.programOffset
  files : table.files = head.files

theorem SharesFront.start_registers {table : LineTable} (h : table.SharesFront head) :
    (Pass.start head.program).registers = (Pass.start table.program).registers :=
  congrArg (fun parameters : Parameters => Registers.initial parameters.defaultIsStmt)
    h.parameters.symm

end LineTable

/-- The unit of a program with other instructions, its length rewritten. -/
def LineProgram.replaced (program : LineProgram) (instructions : List UInt8) : List UInt8 :=
  program.header.format.frame program.header.order
    ((program.bytes.take program.header.programOffset).drop program.header.format.lengthSize ++
      instructions)

namespace UnitLayout

variable {layout : UnitLayout} {context : UnitContext} {table : LineTable}

/-- The layout of the unit with another program. -/
def withProgram (layout : UnitLayout) (program : List UInt8) : UnitLayout :=
  { layout with program }

/-- The fields that the unit's length covers, up to the program. -/
def frontBody (layout : UnitLayout) : List UInt8 :=
  layout.order.bytes 2 layout.version.toNat ++ layout.sizeBytes ++
    layout.order.bytes layout.format.wordSize layout.countedBytes.length ++ layout.countedBytes

theorem bytes_eq_frame (layout : UnitLayout) :
    layout.bytes = layout.format.frame layout.order (layout.frontBody ++ layout.program) := rfl

theorem length_frontBody (layout : UnitLayout) :
    layout.format.lengthSize + layout.frontBody.length = layout.programOffset := by
  simp [frontBody, programOffset, countedOffset, ByteOrder.length_bytes]
  omega

theorem Writes.replaced_eq (h : layout.Writes context table) (instructions : List UInt8) :
    table.program.replaced instructions = (layout.withProgram instructions).bytes := by
  have hfront : (table.program.bytes.take layout.programOffset).drop layout.format.lengthSize =
      layout.frontBody := by
    have hbody := layout.format.drop_frame layout.order (layout.frontBody ++ layout.program) 0
    rw [Nat.add_zero, List.drop_zero] at hbody
    rw [← h.eq_bytes, bytes_eq_frame, ← length_frontBody, List.drop_take, hbody,
      Nat.add_sub_cancel_left, List.take_left]
  rw [LineProgram.replaced, h.format_eq, h.order_eq, h.programOffset_eq, hfront]
  rfl

theorem Writes.parse_replaced (h : layout.Writes context table) {instructions : List UInt8}
    (hfits : table.program.header.programOffset + instructions.length ≤
      table.program.header.format.lengthSize + table.program.header.format.maxLength)
    (hlength : table.program.header.programOffset + instructions.length < 2 ^ 64)
    (before after : List UInt8) :
    ∃ other, LineTable.parse layout.order
        (before ++ table.program.replaced instructions ++ after) before.length context = .ok other ∧
      other.SharesFront table ∧ other.program.bytes = table.program.replaced instructions := by
  have hbody : (layout.frontBody ++ instructions).length + layout.format.lengthSize =
      layout.programOffset + instructions.length := by
    rw [List.length_append, ← length_frontBody]
    omega
  rw [h.format_eq, h.programOffset_eq, ← hbody, Nat.add_comm] at hfits
  rw [h.programOffset_eq, ← hbody, Nat.add_comm, ← DwarfFormat.length_frame] at hlength
  have hwell : (layout.withProgram instructions).WellFormed := { h.wellFormed with }
  have hparse := parse_eq hwell (decide_eq_true (Nat.le_of_add_le_add_left hfits)) hlength context
    h.lists before after
  rw [h.replaced_eq]
  exact ⟨_, hparse, ⟨h.parameters_eq.symm, h.programOffset_eq.symm, rfl⟩, rfl⟩

end UnitLayout

namespace LineTable

variable {order : ByteOrder} {format : DwarfFormat} {context : UnitContext}
  {front body first second : List UInt8} {head table : LineTable}

theorem header_of_unit (hfits : body.length ≤ format.maxLength)
    (h : parse order (format.frame order body) 0 context = .ok table) :
    table.program.bytes = format.frame order body ∧ table.program.header.format = format ∧
      table.program.header.order = order := by
  obtain ⟨hunit, rest, hread⟩ := read_of_parse h
  have hbytes : table.program.bytes = format.frame order body := by
    have hfound := @unitBytes_frame_eq order _ _ hfits [] []
    rw [List.nil_append, List.append_nil, List.length_nil, hunit] at hfound
    split_ifs at hfound
    exact Except.ok.inj hfound
  obtain ⟨horder, start, hstart, -⟩ := Header.format_of_read hread
  have hinitial := Reader.initialLength_frame order hfits 0 []
  rw [List.append_nil, List.append_nil] at hinitial
  rw [hbytes, Cursor.start, hinitial, Except.ok.injEq, Prod.mk.injEq, Prod.mk.injEq] at hstart
  obtain ⟨⟨-, hformat⟩, -⟩ := hstart
  exact ⟨hbytes, hformat.symm, horder⟩

/-- A unit whose lists end where its program begins or before is accepted with other instructions,
if it still has a length that can be written. -/
theorem parse_replaced {lines instructions : List UInt8} {offset : ℕ}
    (hparse : parse order lines offset context = .ok table)
    (hends : table.program.tablesEnd ≤ table.program.header.programOffset)
    (hfits : table.program.header.programOffset + instructions.length ≤
      table.program.header.format.lengthSize + table.program.header.format.maxLength)
    (hlength : table.program.header.programOffset + instructions.length < 2 ^ 64)
    (before after : List UInt8) :
    ∃ other, parse order (before ++ table.program.replaced instructions ++ after) before.length
        context = .ok other ∧
      other.SharesFront table ∧
      other.program.bytes.drop other.program.header.programOffset = instructions := by
  obtain ⟨layout, rfl, hwrites⟩ := exists_writes_of_parse hparse hends
  obtain ⟨other, hother, hfront, hbytes⟩ := hwrites.parse_replaced hfits hlength before after
  refine ⟨other, hother, hfront, ?_⟩
  rw [hbytes, hwrites.replaced_eq, hfront.programOffset, hwrites.programOffset_eq]
  exact (layout.withProgram instructions).drop_programOffset

theorem parse_front (hhead : parse order (format.frame order (front ++ first)) 0 context = .ok head)
    (hprogram : head.program.header.programOffset = format.lengthSize + front.length)
    (htables : head.program.tablesEnd ≤ head.program.header.programOffset)
    (hfirst : (front ++ first).length ≤ format.maxLength)
    (hsecond : (front ++ second).length ≤ format.maxLength)
    (hlength : (format.frame order (front ++ second)).length < 2 ^ 64) :
    ∃ table, parse order (format.frame order (front ++ second)) 0 context = .ok table ∧
      table.SharesFront head := by
  obtain ⟨hbytes, hformat, horder⟩ := header_of_unit hfirst hhead
  have hreplaced : head.program.replaced second = format.frame order (front ++ second) := by
    have hfront := format.drop_frame order (front ++ first) 0
    rw [Nat.add_zero, List.drop_zero] at hfront
    rw [LineProgram.replaced, hformat, horder, hbytes, hprogram, List.drop_take, hfront,
      Nat.add_sub_cancel_left, List.take_left]
  rw [DwarfFormat.length_frame, List.length_append, ← Nat.add_assoc, ← hprogram] at hlength
  rw [List.length_append] at hsecond
  have hfits : head.program.header.programOffset + second.length ≤
      head.program.header.format.lengthSize + head.program.header.format.maxLength := by
    rw [hformat, hprogram]
    omega
  obtain ⟨table, htable, hshares, -⟩ := parse_replaced hhead htables hfits hlength [] []
  rw [hreplaced, List.nil_append, List.append_nil] at htable
  exact ⟨table, htable, hshares⟩

end LineTable
end DwarfLines
