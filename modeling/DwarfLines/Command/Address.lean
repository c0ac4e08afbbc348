import DwarfLines.Text.Numeral

/-!
# Addresses in arguments

An address is decimal, or hexadecimal after `0x` or `0X`.
-/

namespace DwarfLines
namespace Address

/-- The digits after a hexadecimal mark, if there is one. -/
def hexDigits? : List Char → Option (List Char)
  | '0' :: 'x' :: digits => some digits
  | '0' :: 'X' :: digits => some digits
  | _ => none

def parse? (text : String) : Option UInt64 :=
  match hexDigits? text.toList with
  | some digits => Numeral.word? 16 digits
  | none => Numeral.word? 10 text.toList

end Address
end DwarfLines
