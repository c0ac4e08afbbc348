/-!
# Unpacking as it goes on

Packed data are taken bit by bit, the least significant bit of a byte first, while the bytes they
stand for are written into a limited room. Unpacking may halt before its end, and what was written
until then is kept.
-/

namespace DwarfLines

inductive Halt where
  /-- The packed data end too early. -/
  | exhausted
  /-- There is no room for another byte. -/
  | full
  /-- The packed data make no sense. -/
  | damaged
  deriving DecidableEq, Repr

/-- How far unpacking has come. -/
structure Inflation where
  bits : List Bool
  room : Nat
  output : Array UInt8 := #[]
  deriving DecidableEq, Repr

/-- A step of unpacking. -/
abbrev Inflate (α : Type) : Type := ExceptT Halt (StateM Inflation) α

/-- The bits of a byte, the least significant first. -/
def bitsOf (b : UInt8) : List Bool := (List.range 8).map b.toNat.testBit

namespace Inflation

def start (room : Nat) (packed : List UInt8) : Inflation := { bits := packed.flatMap bitsOf, room }

end Inflation

namespace Inflate

def bit : Inflate Bool := do
  match (← get).bits with
  | [] => throw .exhausted
  | b :: rest =>
    modify ({ · with bits := rest })
    return b

/-- Takes a number of a given width, whose least significant bit comes first. -/
def number : Nat → Inflate Nat
  | 0 => return 0
  | width + 1 => do
    let low ← bit
    let high ← number width
    return low.toNat + 2 * high

/-- Takes numbers of one width. -/
def numbers (width : Nat) : Nat → Inflate (List Nat)
  | 0 => return []
  | count + 1 => return (← number width) :: (← numbers width count)

def align : Inflate Unit :=
  modify fun state => { state with bits := state.bits.drop (state.bits.length % 8) }

def emit (b : UInt8) : Inflate Unit := do
  if (← get).room = 0 then
    throw .full
  else
    modify fun state => { state with room := state.room - 1, output := state.output.push b }

/-- Takes whole bytes and writes them unchanged. -/
def store : Nat → Inflate Unit
  | 0 => return
  | count + 1 => do
    emit (.ofNat (← number 8))
    store count

/-- Writes again the byte a distance back, as many times as told; the bytes written on the way may
be among those that are repeated. -/
def copy (distance : Nat) : Nat → Inflate Unit
  | 0 => return
  | count + 1 => do
    let output := (← get).output
    if h : 0 < distance ∧ distance ≤ output.size then
      emit (output[output.size - distance])
    else
      throw .damaged
    copy distance count

end Inflate
end DwarfLines
