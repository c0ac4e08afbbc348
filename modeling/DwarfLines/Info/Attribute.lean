import DwarfLines.Dwarf.FormValue
import DwarfLines.Info.Abbreviation

/-!
# Attribute values

An attribute is found by reading the values before it, whose sizes only their forms tell. Values
that no line table needs are told apart no further.
-/

namespace DwarfLines

/-- How the values of a unit are laid out. -/
structure UnitEncoding where
  order : ByteOrder
  format : DwarfFormat
  version : UInt16
  addressSize : UInt8
  deriving DecidableEq, Repr

inductive AttributeValue where
  | text (bytes : List UInt8)
  | strOffset (offset : Nat)
  | lineStrOffset (offset : Nat)
  | strIndex (index : Nat)
  | sectionOffset (offset : Nat)
  | fourBytes (value : Nat)
  | eightBytes (value : Nat)
  | other
  deriving DecidableEq, Repr

namespace AttributeValue

variable (encoding : UnitEncoding)

/-- A value that takes the given number of bytes and is of no use. -/
def skipped (size : Nat) : Reader ReadError AttributeValue := do
  Reader.skip size
  return other

/-- A value that says its size with a number of the given width and is of no use. -/
def block (width : Nat) : Reader ReadError AttributeValue := do
  skipped (← Reader.fixed encoding.order width)

/-- Follows the forms that name the form to use, each of which takes at least one byte. -/
def directForm (form : UInt16) (c : Cursor) : Except ReadError (UInt16 × Cursor) :=
  if form = Form.indirect.code then
    match h : Reader.uleb128Short c with
    | .error e => .error e
    | .ok (actual, next) =>
      have := Cursor.length_lt (AttributeSpec.consuming_uleb128Short h)
      directForm actual next
  else
    .ok (form, c)
termination_by c.rest.length

/-- The size of a reference to another entry, which version 2 gives the size of an address. -/
def referenceSize : Nat :=
  if encoding.version = 2 then encoding.addressSize.toNat else encoding.format.wordSize

/-- Reads a value whose form is named directly. -/
def readDirect (implicit : Bool) (code : UInt16) : Reader ReadError AttributeValue :=
  let word := Reader.word encoding.order encoding.format
  match Form.ofCode? code with
  | some .string => text <$> Reader.terminated
  | some .strp => strOffset <$> word
  | some .lineStrp => lineStrOffset <$> word
  | some .strx | some .gnuStrIndex => do return strIndex (← Reader.uleb128).toNat
  | some .strx1 => strIndex <$> Reader.fixed encoding.order 1
  | some .strx2 => strIndex <$> Reader.fixed encoding.order 2
  | some .strx3 => strIndex <$> Reader.fixed encoding.order 3
  | some .strx4 => strIndex <$> Reader.fixed encoding.order 4
  | some .secOffset => sectionOffset <$> word
  | some .data4 => fourBytes <$> Reader.fixed encoding.order 4
  | some .data8 => eightBytes <$> Reader.fixed encoding.order 8
  | some .addr => do
    let _ ← Reader.address encoding.order encoding.addressSize
    return other
  | some .flagPresent => return other
  | some .implicitConst => if implicit then return other else throw .invalidImplicitConst
  | some .data1 | some .flag | some .ref1 | some .addrx1 => skipped 1
  | some .data2 | some .ref2 | some .addrx2 => skipped 2
  | some .addrx3 => skipped 3
  | some .ref4 | some .refSup4 | some .addrx4 => skipped 4
  | some .ref8 | some .refSig8 | some .refSup8 => skipped 8
  | some .data16 => skipped 16
  | some .strpSup | some .gnuStrpAlt | some .gnuRefAlt => skipped encoding.format.wordSize
  | some .refAddr => skipped (referenceSize encoding)
  | some .udata | some .refUdata | some .addrx | some .loclistx | some .rnglistx
  | some .gnuAddrIndex => do
    let _ ← Reader.uleb128
    return other
  | some .sdata => do
    let _ ← Reader.sleb128
    return other
  | some .block1 => block encoding 1
  | some .block2 => block encoding 2
  | some .block4 => block encoding 4
  | some .block | some .exprloc => do skipped (← Reader.uleb128).toNat
  | some .null | some .ref | some .indirect | none => throw .unknownForm

def read (spec : AttributeSpec) : Reader ReadError AttributeValue := do
  readDirect encoding spec.implicit (← directForm spec.form)

/-- Reads values up to that of the attribute with a name, if it is among those listed. -/
def find? (name : UInt16) : List AttributeSpec → Reader ReadError (Option AttributeValue)
  | [] => pure none
  | spec :: rest => do
    let value ← read encoding spec
    if spec.name = name then return some value else find? name rest

/-- The offset of another section, which older versions write as a plain number of its width. -/
def lineOffset? (value : AttributeValue) : Option Nat :=
  match value, encoding.format with
  | .sectionOffset offset, _ => some offset
  | .fourBytes offset, .dwarf32 => some offset
  | .eightBytes offset, .dwarf64 => some offset
  | _, _ => none

def string (strings : StringSections) (value : AttributeValue) : Except ReadError String :=
  match value with
  | text bytes => .ok (Utf8.decode bytes)
  | strOffset offset => stringAt (strings.debugStr.getD []) offset
  | lineStrOffset offset => stringAt (strings.debugLineStr.getD []) offset
  | strIndex index => do
    let base ← Cursor.at? (strings.debugStrOffsets.getD []) strings.strOffsetsBase
    let (_, entry) ← Reader.skip (index * encoding.format.wordSize % 0x10000000000000000) base
    let (offset, _) ← Reader.word encoding.order encoding.format entry
    stringAt (strings.debugStr.getD []) offset
  | _ => .error .expectedStringAttributeValue

end AttributeValue
end DwarfLines
