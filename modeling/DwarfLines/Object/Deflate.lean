import DwarfLines.Object.PrefixCode

/-!
# Deflated data

Deflated data are a sequence of blocks. A block stores bytes as they are, or it is a sequence of
symbols in a pair of codes, fixed ones or such as the block describes. A symbol stands for a byte,
for the end of the block, or for a stretch of what was written before.
-/

namespace DwarfLines
namespace Deflate

structure BlockCodes where
  /-- Bytes, the end of the block, and the lengths of repeated stretches. -/
  symbols : PrefixCode
  /-- How far back repeated stretches begin. -/
  distances : PrefixCode
  deriving DecidableEq, Repr

/-- The codes of a block that describes none. -/
def fixedCodes : BlockCodes where
  symbols := .ofLengths (List.replicate 144 8 ++ List.replicate 112 9 ++ List.replicate 24 7 ++
    List.replicate 8 8)
  distances := .ofLengths (List.replicate 32 5)

/-- The symbols of the code for code lengths, in the order in which its own lengths are given. -/
def lengthOrder : List Nat :=
  [16, 17, 18, 0, 8, 7, 9, 6, 10, 5, 11, 4, 12, 3, 13, 2, 14, 1, 15]

/-- Each symbol for a length, the first being 257: the least length, and the width of what is
added to it. -/
def lengthRanges : List (Nat × Nat) :=
  [(3, 0), (4, 0), (5, 0), (6, 0), (7, 0), (8, 0), (9, 0), (10, 0), (11, 1), (13, 1), (15, 1),
    (17, 1), (19, 2), (23, 2), (27, 2), (31, 2), (35, 3), (43, 3), (51, 3), (59, 3), (67, 4),
    (83, 4), (99, 4), (115, 4), (131, 5), (163, 5), (195, 5), (227, 5), (258, 0)]

/-- Each symbol for a distance: the least distance, and the width of what is added to it. -/
def distanceRanges : List (Nat × Nat) :=
  [(1, 0), (2, 0), (3, 0), (4, 0), (5, 1), (7, 1), (9, 2), (13, 2), (17, 3), (25, 3), (33, 4),
    (49, 4), (65, 5), (97, 5), (129, 6), (193, 6), (257, 7), (385, 7), (513, 8), (769, 8),
    (1025, 9), (1537, 9), (2049, 10), (3073, 10), (4097, 11), (6145, 11), (8193, 12),
    (12289, 12), (16385, 13), (24577, 13)]

/-- Takes what is added to the least number of a range. -/
def readInRange (ranges : List (Nat × Nat)) (symbol : Nat) : Inflate Nat :=
  match ranges[symbol]? with
  | some (least, width) => return least + (← Inflate.number width)
  | none => throw .damaged

/-- Goes on to take code lengths after those taken so far, the last of which comes first. Some
symbols repeat the last length or a length of zero, and they may not repeat it too often. -/
def readLengths (code : PrefixCode) (wanted : Nat) : Nat → List Nat → Inflate (List Nat)
  | 0, _ => throw .damaged
  | steps + 1, lengths => do
    if lengths.length = wanted then
      return lengths.reverse
    else if wanted < lengths.length then
      throw .damaged
    else
      match ← code.read, lengths with
      | 16, [] => throw .damaged
      | 16, last :: _ =>
        readLengths code wanted steps (List.replicate (3 + (← Inflate.number 2)) last ++ lengths)
      | 17, _ =>
        readLengths code wanted steps (List.replicate (3 + (← Inflate.number 3)) 0 ++ lengths)
      | 18, _ =>
        readLengths code wanted steps (List.replicate (11 + (← Inflate.number 7)) 0 ++ lengths)
      | length, _ => readLengths code wanted steps (length :: lengths)

def readCodes : Inflate BlockCodes := do
  let symbolCount := 257 + (← Inflate.number 5)
  let distanceCount := 1 + (← Inflate.number 5)
  let givenCount := 4 + (← Inflate.number 4)
  if 286 < symbolCount ∨ 30 < distanceCount then
    throw .damaged
  let given := lengthOrder.zip (← Inflate.numbers 3 givenCount)
  let code := PrefixCode.ofLengths ((List.range 19).map fun symbol => (given.lookup symbol).getD 0)
  unless code.isComplete do
    throw .damaged
  let wanted := symbolCount + distanceCount
  let lengths ← readLengths code wanted (wanted + 1) []
  let codes : BlockCodes :=
    { symbols := .ofLengths (lengths.take symbolCount),
      distances := .ofLengths (lengths.drop symbolCount) }
  if codes.symbols.isUsable && codes.distances.isUsable then return codes else throw .damaged

/-- Takes symbols up to the end of a block, in no more steps than told. -/
def readSymbols (codes : BlockCodes) : Nat → Inflate Unit
  | 0 => throw .exhausted
  | steps + 1 => do
    let symbol ← codes.symbols.read
    if symbol < 256 then
      Inflate.emit (.ofNat symbol)
      readSymbols codes steps
    else if symbol = 256 then
      return
    else
      let length ← readInRange lengthRanges (symbol - 257)
      let distance ← readInRange distanceRanges (← codes.distances.read)
      Inflate.copy distance length
      readSymbols codes steps

/-- Takes a block that stores its bytes: their number, the same number with all its bits turned,
and the bytes. -/
def readStored : Inflate Unit := do
  Inflate.align
  let count ← Inflate.number 16
  let turned ← Inflate.number 16
  if count + turned = 0xffff then Inflate.store count else throw .damaged

/-- Takes what follows the kind of a block. Every symbol takes a bit, so there are no more of them
than bits. -/
def readBlock : Nat → Inflate Unit
  | 0 => readStored
  | 1 => do readSymbols fixedCodes ((← get).bits.length + 1)
  | 2 => do
    let codes ← readCodes
    readSymbols codes ((← get).bits.length + 1)
  | _ => throw .damaged

def readBlocks : Nat → Inflate Unit
  | 0 => throw .exhausted
  | steps + 1 => do
    let isLast ← Inflate.bit
    readBlock (← Inflate.number 2)
    if isLast then return else readBlocks steps

/-- Takes all blocks. Every block takes a bit, so there are no more of them than bits. -/
def read : Inflate Unit := do readBlocks ((← get).bits.length + 1)

end Deflate
end DwarfLines
