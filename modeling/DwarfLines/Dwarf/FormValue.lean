import DwarfLines.Bytes.Leb128
import DwarfLines.Dwarf.Format
import DwarfLines.Error
import DwarfLines.Text.Utf8

/-!
# Values laid out by a form

The columns of a version 5 directory or file list are read by their forms. Strings and unsigned
numbers have few forms; a column that means nothing here can have almost any form and is skipped,
so that the column after it is read from the right place.
-/

namespace DwarfLines

/-- How the forms of one unit are laid out, and the sections they refer to. -/
structure FormLayout where
  order : ByteOrder
  format : DwarfFormat
  addressSize : UInt8
  strings : StringSections
  deriving DecidableEq, Repr

def stringAt (bytes : List UInt8) (offset : Nat) : Except ReadError String := do
  let (text, _) ← Reader.terminated (← Cursor.at? bytes offset)
  return Utf8.decode text

namespace FormLayout

variable (layout : FormLayout)

def sectionFor (target : StringSection) (form : Form) : Except LineError (List UInt8) :=
  match layout.strings.get? target with
  | some bytes => .ok bytes
  | none => .error (.missingSection target form)

/-- The string that starts `offset` bytes into a section that a form needs. -/
def stringIn (target : StringSection) (form : Form) (offset : Nat) : Except LineError String := do
  LineError.ofRead (stringAt (← layout.sectionFor target form) offset)

/-- The string whose offset stands at an index of the offsets section. -/
def indexedString (form : Form) (index : UInt64) : Except LineError String := do
  let offsets ← layout.sectionFor .debugStrOffsets form
  let entry := index.toNat * layout.format.wordSize + layout.strings.strOffsetsBase
  if entry < 0x10000000000000000 then
    let (offset, _) ← LineError.ofRead do
      (Reader.word layout.order layout.format) (← Cursor.at? offsets entry)
    layout.stringIn .debugStr form offset
  else
    throw (.format (.stringIndexOverflow index))

def string (code : UInt16) : Reader LineError String :=
  match Form.ofCode? code with
  | some .string => do return Utf8.decode (← Reader.terminated)
  | some .strp => do layout.stringIn .debugStr .strp (← Reader.word layout.order layout.format)
  | some .lineStrp => do
    layout.stringIn .debugLineStr .lineStrp (← Reader.word layout.order layout.format)
  | some .strpSup => do
    layout.stringIn .debugStrSup .strpSup (← Reader.word layout.order layout.format)
  | some .strx => do layout.indexedString .strx (← Reader.uleb128)
  | some .strx1 => do layout.indexedString .strx1 (UInt64.ofNat (← Reader.fixed layout.order 1))
  | some .strx2 => do layout.indexedString .strx2 (UInt64.ofNat (← Reader.fixed layout.order 2))
  | some .strx4 => do layout.indexedString .strx4 (UInt64.ofNat (← Reader.fixed layout.order 4))
  | _ => Reader.reject (.notStringForm code)

def unsigned (code : UInt16) : Reader LineError UInt64 :=
  match Form.ofCode? code with
  | some .data1 => do return UInt64.ofNat (← Reader.fixed layout.order 1)
  | some .data2 => do return UInt64.ofNat (← Reader.fixed layout.order 2)
  | some .data4 => do return UInt64.ofNat (← Reader.fixed layout.order 4)
  | some .data8 => do return UInt64.ofNat (← Reader.fixed layout.order 8)
  | some .udata => Reader.uleb128
  | _ => Reader.reject (.notUnsignedForm code)

def fixedSize? : Form → Option Nat
  | .flagPresent | .implicitConst => some 0
  | .data1 | .flag | .ref1 | .strx1 | .addrx1 => some 1
  | .data2 | .ref2 | .strx2 | .addrx2 => some 2
  | .strx3 | .addrx3 => some 3
  | .data4 | .ref4 | .refSup4 | .strx4 | .addrx4 => some 4
  | .data8 | .ref8 | .refSig8 | .refSup8 => some 8
  | .data16 => some 16
  | .addr => some layout.addressSize.toNat
  | .strp | .lineStrp | .strpSup | .secOffset | .refAddr | .gnuStrpAlt | .gnuRefAlt =>
    some layout.format.wordSize
  | _ => none

/-- Moves past a value of any form whose size can be told. -/
def skip (code : UInt16) : Reader LineError Unit :=
  match Form.ofCode? code with
  | some form =>
    match layout.fixedSize? form with
    | some size => Reader.skip size
    | none =>
      match form with
      | .udata | .strx | .addrx | .refUdata | .loclistx | .rnglistx => do
        let _ ← Reader.uleb128
      | .sdata => do
        let _ ← Reader.sleb128
      | .string => do
        let _ ← Reader.terminated
      | .block1 => do Reader.skip (← Reader.fixed layout.order 1)
      | .block2 => do Reader.skip (← Reader.fixed layout.order 2)
      | .block4 => do Reader.skip (← Reader.fixed layout.order 4)
      | .block | .exprloc => do Reader.skip (← Reader.uleb128).toNat
      | _ => Reader.reject (.unskippableForm code)
  | none => Reader.reject (.unskippableForm code)

end FormLayout
end DwarfLines
