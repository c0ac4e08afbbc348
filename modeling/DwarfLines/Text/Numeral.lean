/-!
# Numerals

How numbers are written in reports and read from arguments. Writing uses the fewest digits;
reading admits one leading plus sign and any number of leading zeros, and refuses a value that
does not fit sixty-four bits.
-/

namespace DwarfLines
namespace Numeral

def decimal (n : Nat) : String := String.ofList (Nat.toDigits 10 n)

def signedDecimal (n : Int) : String :=
  if n < 0 then "-" ++ decimal n.natAbs else decimal n.natAbs

/-- Lower-case hexadecimal digits after `0x`. -/
def hex (n : Nat) : String := "0x" ++ String.ofList (Nat.toDigits 16 n)

def padLeft (width : Nat) (fill : Char) (digits : List Char) : List Char :=
  List.replicate (width - digits.length) fill ++ digits

/-- At least sixteen hexadecimal digits after `0x`. -/
def hexWord (n : Nat) : String := "0x" ++ String.ofList (padLeft 16 '0' (Nat.toDigits 16 n))

def hexByte (b : UInt8) : String := String.ofList (padLeft 2 '0' (Nat.toDigits 16 b.toNat))

def column (n : Nat) : String := String.ofList (padLeft 3 ' ' (Nat.toDigits 10 n))

/-- What a character counts as a digit of the base. -/
def digit? (base : Nat) (c : Char) : Option Nat :=
  let value? :=
    if '0' ≤ c ∧ c ≤ '9' then some (c.toNat - '0'.toNat)
    else if 'a' ≤ c ∧ c ≤ 'z' then some (c.toNat - 'a'.toNat + 10)
    else if 'A' ≤ c ∧ c ≤ 'Z' then some (c.toNat - 'A'.toNat + 10)
    else none
  value?.filter (· < base)

/-- The number that digits stand for, continuing from those already read. -/
def digitsFrom? (base value : Nat) : List Char → Option Nat
  | [] => some value
  | c :: cs => do digitsFrom? base (base * value + (← digit? base c)) cs

def digits? (base : Nat) : List Char → Option Nat
  | [] => none
  | cs => digitsFrom? base 0 cs

def dropPlus : List Char → List Char
  | '+' :: cs => cs
  | cs => cs

def word? (base : Nat) (cs : List Char) : Option UInt64 := do
  let n ← digits? base (dropPlus cs)
  if n < 0x10000000000000000 then some (UInt64.ofNat n) else none

end Numeral
end DwarfLines
