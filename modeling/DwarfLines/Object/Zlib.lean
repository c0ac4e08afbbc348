import DwarfLines.Object.Deflate

/-!
# Zlib streams

A compressed section is a zlib stream: two bytes that announce deflated data, the data, and a
checksum of what they hold. The caller says how many bytes there is room for. A stream that goes
on beyond that room is then not looked at any further, and a stream that breaks off gives what it
holds until then, even if it breaks off within its checksum.
-/

namespace DwarfLines
namespace Zlib

def checksum (bytes : List UInt8) : Nat :=
  let (low, high) := bytes.foldl
    (fun (low, high) b =>
      let next := (low + b.toNat) % 65521
      (next, (high + next) % 65521)) (1, 0)
  high * 65536 + low

/-- Whether two bytes announce deflated data without a preset dictionary, with distances of
32768 bytes at most. -/
def isHeader (method flags : Nat) : Bool :=
  (method * 256 + flags) % 31 == 0 && flags / 32 % 2 == 0 && method % 16 == 8 && method / 16 ≤ 7

/-- Takes a number of four bytes, the most significant first. -/
def readChecksum : Inflate Nat := do
  return (← Inflate.numbers 8 4).foldl (fun high low => high * 256 + low) 0

def read : Inflate Unit := do
  let method ← Inflate.number 8
  let flags ← Inflate.number 8
  unless isHeader method flags do
    throw .damaged
  Deflate.read
  Inflate.align
  if (← readChecksum) ≠ checksum (← get).output.toList then
    throw .damaged

/-- What a stream holds, up to the given number of bytes, unless it is damaged. -/
def inflate (room : Nat) (stream : List UInt8) : Option (List UInt8) :=
  match (read.run).run (.start room stream) with
  | (.error .damaged, _) => none
  | (_, inflation) => some inflation.output.toList

end Zlib
end DwarfLines
