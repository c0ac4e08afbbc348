/-!
# Fixed-width numbers in either byte order

A section is a list of bytes, and every number of fixed width in it is written in the byte
order of the file. `ByteOrder.value` reads such a number and `ByteOrder.bytes` writes it.
-/

namespace DwarfLines

/-- Which end of a number is stored first. -/
inductive ByteOrder where
  | little
  | big
  deriving DecidableEq, Repr

namespace ByteOrder

/-- The number whose least significant byte comes first. -/
def littleValue : List UInt8 → Nat
  | [] => 0
  | b :: bs => b.toNat + 256 * littleValue bs

/-- The low `width` bytes of a number, least significant first. -/
def littleBytes : Nat → Nat → List UInt8
  | 0, _ => []
  | width + 1, n => UInt8.ofNat n :: littleBytes width (n / 256)

def value : ByteOrder → List UInt8 → Nat
  | little, bs => littleValue bs
  | big, bs => littleValue bs.reverse

def bytes : ByteOrder → Nat → Nat → List UInt8
  | little, width, n => littleBytes width n
  | big, width, n => (littleBytes width n).reverse

theorem length_littleBytes (width n : Nat) : (littleBytes width n).length = width := by
  induction width generalizing n with
  | zero => rfl
  | succ width ih => simp [littleBytes, ih]

@[simp] theorem length_bytes (order : ByteOrder) (width n : Nat) :
    (order.bytes width n).length = width := by
  cases order <;> simp [bytes, length_littleBytes]

end ByteOrder
end DwarfLines
