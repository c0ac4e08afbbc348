import DwarfLines.Bytes.Cursor

/-!
# The two DWARF formats

A unit announces by its first word whether lengths and offsets in it take four or eight bytes.
-/

namespace DwarfLines

/-- How wide the offsets of a unit are. -/
inductive DwarfFormat where
  | dwarf32
  | dwarf64
  deriving DecidableEq, Repr

namespace DwarfFormat

def wordSize : DwarfFormat → Nat
  | dwarf32 => 4
  | dwarf64 => 8

def lengthSize : DwarfFormat → Nat
  | dwarf32 => 4
  | dwarf64 => 12

/-- The lengths a unit of this format can have. -/
def maxLength : DwarfFormat → Nat
  | dwarf32 => 0xffffffef
  | dwarf64 => 0xffffffffffffffff

/-- How many offsets the format can write. -/
def offsetCount : DwarfFormat → Nat
  | dwarf32 => 0x100000000
  | dwarf64 => 0x10000000000000000

/-- The field that announces a unit's length. -/
def lengthBytes (order : ByteOrder) : DwarfFormat → Nat → List UInt8
  | dwarf32, length => order.bytes 4 length
  | dwarf64, length => order.bytes 4 0xffffffff ++ order.bytes 8 length

end DwarfFormat

namespace Reader

/-- An offset of the format's width. -/
def word (order : ByteOrder) (format : DwarfFormat) : Reader ReadError Nat :=
  fixed order format.wordSize

def initialLength (order : ByteOrder) : Reader ReadError (Nat × DwarfFormat) := do
  let first ← fixed order 4
  if first < 0xfffffff0 then
    return (first, .dwarf32)
  else if first = 0xffffffff then
    return (← fixed order 8, .dwarf64)
  else
    throw .unknownReservedLength

end Reader
end DwarfLines
