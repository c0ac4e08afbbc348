import DwarfLines.Object.Inflation

/-!
# Codes of varying length

The symbols of a code are numbered from zero, and each has a code of its own length or none. The
lengths alone fix the codes: shorter codes come before longer ones, and codes of one length are
counted up in the order of their symbols.
-/

namespace DwarfLines

/-- A code, given by the symbols of each length from one bit on. -/
structure PrefixCode where
  groups : List (List Nat)
  deriving DecidableEq, Repr

namespace PrefixCode

/-- The code whose symbols have the given lengths, a length of zero standing for no code. -/
def ofLengths (lengths : List Nat) : PrefixCode :=
  let longest := lengths.foldl max 1
  { groups := (List.range longest).map fun shorter =>
      lengths.zipIdx.filterMap fun (length, symbol) =>
        if length = shorter + 1 then some symbol else none }

variable (code : PrefixCode)

def size : Nat := code.groups.flatten.length

/-- How many codes as long as the longest are left over, less than none if there are too few. -/
def unused : Int := code.groups.foldl (fun free group => 2 * free - group.length) 1

/-- Whether every sequence of bits begins with exactly one of the codes. -/
def isComplete : Bool := code.unused == 0

/-- Whether data may be read in the code: it is complete, or it has one code at most. -/
def isUsable : Bool := code.isComplete || code.size ≤ 1

/-- Finds the symbol whose code goes on with the bits to come, among codes that are longer than
those taken so far and begin at an offset from the first of them. -/
def readFrom : List (List Nat) → Nat → Inflate Nat
  | [], _ => throw .damaged
  | group :: longer, offset => do
    let offset := 2 * offset + (← Inflate.bit).toNat
    match group[offset]? with
    | some symbol => return symbol
    | none => readFrom longer (offset - group.length)

def read : Inflate Nat := readFrom code.groups 0

end PrefixCode
end DwarfLines
