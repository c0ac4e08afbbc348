import DwarfLines.Bytes.Cursor

/-!
# LEB128 numbers

A LEB128 number is written seven bits a byte, lowest first, and every byte but the last has its
high bit set. Sixty-four bits need at most ten bytes, so the tenth byte may only hold the one
bit (or, in a signed number, the sign) that is still missing. A number has one shortest writing,
and longer ones are read too.
-/

namespace DwarfLines
namespace Leb128

/-- Reads an unsigned number whose first byte has weight `2 ^ shift`. -/
def unsignedFrom (shift offset : Nat) : List UInt8 → Except ReadError (Nat × Cursor)
  | [] => .error .unexpectedEnd
  | b :: rest =>
    if shift = 63 ∧ b ≠ 0 ∧ b ≠ 1 then
      .error .badUnsignedLeb128
    else if b.toNat < 128 then
      .ok (b.toNat, ⟨offset + 1, rest⟩)
    else
      match unsignedFrom (shift + 7) (offset + 1) rest with
      | .ok (high, c) => .ok (b.toNat - 128 + 128 * high, c)
      | .error e => .error e

/-- Reads a signed number whose first byte has weight `2 ^ shift`. -/
def signedFrom (shift offset : Nat) : List UInt8 → Except ReadError (Int × Cursor)
  | [] => .error .unexpectedEnd
  | b :: rest =>
    if shift = 63 ∧ b ≠ 0 ∧ b ≠ 0x7f then
      .error .badSignedLeb128
    else if b.toNat < 128 then
      .ok (if b.toNat < 64 then (b.toNat : Int) else b.toNat - 128, ⟨offset + 1, rest⟩)
    else
      match signedFrom (shift + 7) (offset + 1) rest with
      | .ok (high, c) => .ok ((b.toNat - 128 : Nat) + 128 * high, c)
      | .error e => .error e

/-- The shortest writing of an unsigned number. -/
def unsignedBytes (n : Nat) : List UInt8 :=
  if n < 128 then [UInt8.ofNat n] else UInt8.ofNat (n % 128 + 128) :: unsignedBytes (n / 128)
termination_by n
decreasing_by omega

/-- The shortest writing of a signed number. -/
def signedBytes (n : Int) : List UInt8 :=
  if -64 ≤ n ∧ n < 64 then
    [UInt8.ofNat (n % 128).toNat]
  else
    UInt8.ofNat ((n % 128).toNat + 128) :: signedBytes (n / 128)
termination_by n.natAbs
decreasing_by omega

end Leb128

namespace Reader

def uleb128 : Reader ReadError UInt64 := fun c =>
  match Leb128.unsignedFrom 0 c.offset c.rest with
  | .ok (n, next) => .ok (UInt64.ofNat n, next)
  | .error e => .error e

def sleb128 : Reader ReadError Int64 := fun c =>
  match Leb128.signedFrom 0 c.offset c.rest with
  | .ok (n, next) => .ok (Int64.ofInt n, next)
  | .error e => .error e

/-- An unsigned LEB128 number of up to sixteen bits, in at most three bytes. -/
def uleb128Short : Reader ReadError UInt16 := do
  let low ← byte
  if low < 0x80 then
    return low.toUInt16
  let middle ← byte
  if middle < 0x80 then
    return UInt16.ofNat (low.toNat - 128 + 128 * middle.toNat)
  let high ← byte
  if high > 3 then
    throw .badUnsignedLeb128
  return UInt16.ofNat (low.toNat - 128 + 128 * (middle.toNat - 128) + 16384 * high.toNat)

end Reader
end DwarfLines
