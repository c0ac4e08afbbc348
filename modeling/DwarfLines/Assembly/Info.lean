import DwarfLines.Dwarf.Writing
import DwarfLines.Info.Unit

/-!
# Writing units of the debug information

Abbreviations are declared in tables, each of which goes on to a code of zero or to the end of its
section. A unit is written as its header, its first entry and whatever follows that entry. What the
entry says is told by the values of its attributes, which are bytes that their forms take; of an
attribute that does not concern line tables only the end of its value matters.
-/

namespace DwarfLines

/-- An attribute as an abbreviation declares it. -/
structure DeclaredAttribute where
  name : UInt16
  form : UInt16
  /-- The value, if it stands in the abbreviation. -/
  implicit : Option Int64 := none
  deriving DecidableEq, Repr

namespace DeclaredAttribute

def bytes (attr : DeclaredAttribute) : List UInt8 :=
  Leb128.unsignedBytes attr.name.toNat ++ Leb128.unsignedBytes attr.form.toNat ++
    match attr.implicit with
    | some value => Leb128.signedBytes value.toInt
    | none => []

def spec (attr : DeclaredAttribute) : AttributeSpec where
  name := attr.name
  form := attr.form
  implicit := attr.implicit.isSome

/-- Whether the attribute can be declared: a name or form of zero would end the list, and one form
alone has its value in the abbreviation. -/
def isWritable (attr : DeclaredAttribute) : Bool :=
  attr.name != 0 && attr.form != 0 && attr.implicit.isSome == (attr.form == Form.implicitConst.code)

end DeclaredAttribute

/-- An abbreviation as it is declared. -/
structure DeclaredAbbreviation where
  code : UInt64
  tag : UInt16
  children : Bool
  attributes : List DeclaredAttribute
  deriving DecidableEq, Repr

namespace DeclaredAbbreviation

/-- The declaration after its code. -/
def bodyBytes (declared : DeclaredAbbreviation) : List UInt8 :=
  Leb128.unsignedBytes declared.tag.toNat ++ (if declared.children then 1 else 0) ::
    (declared.attributes.flatMap DeclaredAttribute.bytes ++ [0, 0])

def bytes (declared : DeclaredAbbreviation) : List UInt8 :=
  Leb128.unsignedBytes declared.code.toNat ++ declared.bodyBytes

def found (declared : DeclaredAbbreviation) : Abbreviation where
  code := declared.code
  attributes := declared.attributes.map DeclaredAttribute.spec

def isWritable (declared : DeclaredAbbreviation) : Bool :=
  declared.code != 0 && declared.tag != 0 && declared.attributes.all DeclaredAttribute.isWritable

/-- A section has a table of abbreviations at an offset. -/
def HoldsTable (bytes : List UInt8) (offset : Nat) (table : List DeclaredAbbreviation) : Prop :=
  ∃ before after, bytes = before ++ (table.flatMap DeclaredAbbreviation.bytes ++ after) ∧
    before.length = offset ∧ (after = [] ∨ ∃ more, after = 0 :: more)

end DeclaredAbbreviation

/-- An attribute with the bytes of its value in the entry. -/
structure WrittenAttribute extends DeclaredAttribute where
  value : List UInt8
  deriving DecidableEq, Repr

/-- A unit, up to its first entry and with the bytes after it. -/
structure WrittenUnit where
  format : DwarfFormat
  version : UInt16
  addressSize : UInt8
  /-- Where the table of its abbreviations begins. -/
  abbreviations : Nat
  /-- The code of the first entry's abbreviation. -/
  code : UInt64
  attributes : List WrittenAttribute
  /-- What follows the first entry. -/
  rest : List UInt8
  deriving DecidableEq, Repr

namespace WrittenUnit

variable (unit : WrittenUnit)

def encoding (order : ByteOrder) : UnitEncoding where
  order
  format := unit.format
  version := unit.version
  addressSize := unit.addressSize

/-- The header after the length, which version 5 orders differently. -/
def headerBytes (order : ByteOrder) : List UInt8 :=
  order.bytes 2 unit.version.toNat ++
    if unit.version = 5 then
      1 :: unit.addressSize :: order.bytes unit.format.wordSize unit.abbreviations
    else
      order.bytes unit.format.wordSize unit.abbreviations ++ [unit.addressSize]

def entryBytes : List UInt8 :=
  Leb128.unsignedBytes unit.code.toNat ++ unit.attributes.flatMap (·.value)

def body (order : ByteOrder) : List UInt8 :=
  unit.headerBytes order ++ (unit.entryBytes ++ unit.rest)

def bytes (order : ByteOrder) : List UInt8 :=
  unit.format.lengthBytes order (unit.body order).length ++ unit.body order

/-- Whether the unit has a version and an address size that there are, and its length and the
offset of its abbreviations fit its format. -/
def isWritable (order : ByteOrder) : Bool :=
  2 ≤ unit.version && unit.version ≤ 5 &&
    (unit.addressSize == 1 || unit.addressSize == 2 || unit.addressSize == 4 ||
      unit.addressSize == 8) &&
    unit.abbreviations < unit.format.offsetCount && (unit.body order).length ≤ unit.format.maxLength

end WrittenUnit

/-! ### What an entry says -/

/-- The form that a value has, named in its abbreviation or in front of the value. -/
inductive NamesForm : UInt16 → List UInt8 → Form → Prop
  | direct {form : Form} : form ≠ .indirect → NamesForm form.code [] form
  | indirect {code : UInt16} {front : List UInt8} {form : Form} : NamesForm code front form →
      NamesForm Form.indirect.code (Leb128.unsignedBytes code.toNat ++ front) form

namespace UnitEncoding

variable (encoding : UnitEncoding)

/-- Bytes stand for the offset of a line table, which older units write as a plain number. -/
inductive WritesLineOffset : Form → Nat → List UInt8 → Prop
  | secOffset {offset} : offset < encoding.format.offsetCount →
      WritesLineOffset .secOffset offset (encoding.order.bytes encoding.format.wordSize offset)
  | data4 {offset} : encoding.format = .dwarf32 → offset < 0x100000000 →
      WritesLineOffset .data4 offset (encoding.order.bytes 4 offset)
  | data8 {offset} : encoding.format = .dwarf64 → offset < 0x10000000000000000 →
      WritesLineOffset .data8 offset (encoding.order.bytes 8 offset)

/-- Bytes stand for an offset of the string offsets. -/
inductive WritesBase : Form → Nat → List UInt8 → Prop
  | secOffset {base} : base < encoding.format.offsetCount →
      WritesBase .secOffset base (encoding.order.bytes encoding.format.wordSize base)

def layout (strings : StringSections) (base : Nat) : FormLayout where
  order := encoding.order
  format := encoding.format
  addressSize := encoding.addressSize
  strings := { strings with strOffsetsBase := base }

end UnitEncoding

/-- Bytes stand for a string: inline, at an offset of a string section or by the index of such an
offset. -/
inductive FormLayout.WritesText (layout : FormLayout) : Form → String → List UInt8 → Prop
  | inline {text} : Char.ofNat 0 ∉ text.toList →
      WritesText layout .string text (Utf8.encode text ++ [0])
  | strp {offset text} : offset < layout.format.offsetCount → layout.Holds .debugStr offset text →
      WritesText layout .strp text (layout.order.bytes layout.format.wordSize offset)
  | lineStrp {offset text} : offset < layout.format.offsetCount →
      layout.Holds .debugLineStr offset text →
      WritesText layout .lineStrp text (layout.order.bytes layout.format.wordSize offset)
  | strx {index text form} : form = .strx ∨ form = .gnuStrIndex → index < 0x10000000000000000 →
      layout.HoldsIndexed index text → WritesText layout form text (Leb128.unsignedBytes index)
  | strxFixed {index text form width bound} :
      (form, width, bound) ∈ [(Form.strx1, 1, 0x100), (.strx2, 2, 0x10000),
        (.strx3, 3, 0x1000000), (.strx4, 4, 0x100000000)] →
      index < bound → layout.HoldsIndexed index text →
      WritesText layout form text (layout.order.bytes width index)

namespace WrittenAttribute

variable (attr : WrittenAttribute)

/-- The value is bytes that stand for something in their form. -/
def Holds (stands : Form → List UInt8 → Prop) : Prop :=
  ∃ front form bytes, NamesForm attr.form front form ∧ stands form bytes ∧
    attr.value = front ++ bytes

/-- The value is taken for what it is, whatever stands around it. -/
def Decodes (encoding : UnitEncoding) (value : AttributeValue) : Prop :=
  ∀ offset rest, AttributeValue.read encoding attr.spec ⟨offset, attr.value ++ rest⟩ =
    .ok (value, ⟨offset + attr.value.length, rest⟩)

end WrittenAttribute

/-- What a unit may say about its line table. -/
structure UnitFacts where
  lineOffset : Option Nat := none
  strOffsetsBase : Option Nat := none
  compDir : Option String := none
  name : Option String := none
  deriving DecidableEq, Repr

namespace UnitFacts

variable (facts : UnitFacts)

def text? : LineAttribute → Option String
  | .name => facts.name
  | .compDir => facts.compDir
  | .lineTable | .strOffsetsBase => none

def mentions : LineAttribute → Bool
  | .lineTable => facts.lineOffset.isSome
  | .strOffsetsBase => facts.strOffsetsBase.isSome
  | .name => facts.name.isSome
  | .compDir => facts.compDir.isSome

/-- An attribute tells one of the facts, or none of them and has a value of any kind. -/
inductive ToldBy (encoding : UnitEncoding) (strings : StringSections) (attr : WrittenAttribute) :
    Prop
  | lineOffset {offset} (name : attr.name = LineAttribute.lineTable.code)
    (fact : facts.lineOffset = some offset)
    (value : attr.Holds fun form => encoding.WritesLineOffset form offset)
  | strOffsetsBase {base} (name : attr.name = LineAttribute.strOffsetsBase.code)
    (fact : facts.strOffsetsBase = some base)
    (value : attr.Holds fun form => encoding.WritesBase form base)
  | text (wanted : LineAttribute) {text} (name : attr.name = wanted.code)
    (fact : facts.text? wanted = some text)
    (value : attr.Holds fun form =>
      (encoding.layout strings (facts.strOffsetsBase.getD 0)).WritesText form text)
  | other (name : ∀ wanted : LineAttribute, attr.name ≠ wanted.code)
    (value : ∃ value, attr.Decodes encoding value)

/-- The facts are what an entry says: each of its attributes tells one of them or is of no concern,
and no fact goes untold. -/
structure SaidBy (encoding : UnitEncoding) (strings : StringSections)
    (attributes : List WrittenAttribute) : Prop where
  told : ∀ attr ∈ attributes, facts.ToldBy encoding strings attr
  all : ∀ wanted, facts.mentions wanted = true → ∃ attr ∈ attributes, attr.name = wanted.code

/-- The unit that is found with an index, if there is a line table. -/
def lineUnit? (strings : StringSections) (addressSize : UInt8) (index : Nat) : Option LineUnit :=
  facts.lineOffset.map fun lineOffset =>
    { index, lineOffset
      context := {
        addressSize
        compDir := facts.compDir.getD InfoSections.unknownCompDir
        name := facts.name.getD (InfoSections.unnamed index)
        strings := { strings with strOffsetsBase := facts.strOffsetsBase.getD 0 } } }

end UnitFacts

/-- A unit is written so as to say certain facts: its first entry says them and has an abbreviation
that the unit's table declares, with no code declared twice. -/
structure WrittenUnit.States (unit : WrittenUnit) (sections : InfoSections) (facts : UnitFacts) :
    Prop where
  writable : unit.isWritable sections.order = true
  declared : ∃ table tag children,
    DeclaredAbbreviation.HoldsTable sections.abbreviations unit.abbreviations table ∧
    (table.all DeclaredAbbreviation.isWritable) = true ∧ (table.map (·.code)).Nodup ∧
    { code := unit.code, tag, children,
      attributes := unit.attributes.map (·.toDeclaredAttribute) } ∈ table
  said : facts.SaidBy (unit.encoding sections.order) sections.strings unit.attributes

end DwarfLines
