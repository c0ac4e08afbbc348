import DwarfLines.Dwarf.FormValue

/-!
# What bytes stand for in a form

A value is written in a form by bytes, together with whatever sections those bytes refer to. The
relations here say which bytes stand for which value; nothing in them depends on how bytes are
read. A number may be written in any form it fits, and a string inline, at an offset of a string
section, or by the index of such an offset.
-/

namespace DwarfLines

/-- A section holds a string at an offset. -/
def HoldsString (bytes : List UInt8) (offset : Nat) (text : String) : Prop :=
  ∃ before after, bytes = before ++ Utf8.encode text ++ 0 :: after ∧ before.length = offset ∧
    Char.ofNat 0 ∉ text.toList

namespace FormLayout

variable (layout : FormLayout)

/-- A section that is present holds a string at an offset. -/
def Holds (target : StringSection) (offset : Nat) (text : String) : Prop :=
  ∃ bytes, layout.strings.get? target = some bytes ∧ HoldsString bytes offset text

/-- The offsets section has at an index the offset of a string. -/
def HoldsIndexed (index : Nat) (text : String) : Prop :=
  ∃ before after offset bytes,
    layout.strings.debugStrOffsets = some bytes ∧
    bytes = before ++ layout.order.bytes layout.format.wordSize offset ++ after ∧
    before.length = layout.strings.strOffsetsBase + index * layout.format.wordSize ∧
    before.length < 0x10000000000000000 ∧ offset < layout.format.offsetCount ∧
    layout.Holds .debugStr offset text

/-- Bytes stand for an unsigned number in a form. -/
inductive WritesNumber : Form → UInt64 → List UInt8 → Prop
  | data1 {n} : n.toNat < 0x100 → WritesNumber .data1 n (layout.order.bytes 1 n.toNat)
  | data2 {n} : n.toNat < 0x10000 → WritesNumber .data2 n (layout.order.bytes 2 n.toNat)
  | data4 {n} : n.toNat < 0x100000000 → WritesNumber .data4 n (layout.order.bytes 4 n.toNat)
  | data8 {n} : WritesNumber .data8 n (layout.order.bytes 8 n.toNat)
  | udata {n} : WritesNumber .udata n (Leb128.unsignedBytes n.toNat)

/-- Bytes stand for a string in a form. -/
inductive WritesString : Form → String → List UInt8 → Prop
  | inline {text} : Char.ofNat 0 ∉ text.toList →
      WritesString .string text (Utf8.encode text ++ [0])
  | strp {offset text} : offset < layout.format.offsetCount → layout.Holds .debugStr offset text →
      WritesString .strp text (layout.order.bytes layout.format.wordSize offset)
  | lineStrp {offset text} : offset < layout.format.offsetCount →
      layout.Holds .debugLineStr offset text →
      WritesString .lineStrp text (layout.order.bytes layout.format.wordSize offset)
  | strpSup {offset text} : offset < layout.format.offsetCount →
      layout.Holds .debugStrSup offset text →
      WritesString .strpSup text (layout.order.bytes layout.format.wordSize offset)
  | strx {index text} : index < 0x10000000000000000 → layout.HoldsIndexed index text →
      WritesString .strx text (Leb128.unsignedBytes index)
  | strx1 {index text} : index < 0x100 → layout.HoldsIndexed index text →
      WritesString .strx1 text (layout.order.bytes 1 index)
  | strx2 {index text} : index < 0x10000 → layout.HoldsIndexed index text →
      WritesString .strx2 text (layout.order.bytes 2 index)
  | strx4 {index text} : index < 0x100000000 → layout.HoldsIndexed index text →
      WritesString .strx4 text (layout.order.bytes 4 index)

end FormLayout
end DwarfLines
