import DwarfLines.Table.LineTable

/-!
# Rows as text

A row is shown as its address and its place in the source, followed by the flags that are set.
-/

namespace DwarfLines
namespace Row

/-- The place in the source: the path, the line unless it is zero, and then the column unless it
is zero. -/
def describe (row : Row) : String :=
  if row.registers.line = 0 then
    row.file.path
  else if row.registers.column = 0 then
    row.file.path ++ ":" ++ Numeral.signedDecimal row.registers.line.toInt
  else
    row.file.path ++ ":" ++ Numeral.signedDecimal row.registers.line.toInt ++ ":" ++
      Numeral.decimal row.registers.column.toNat

/-- The flags of a row and their names, in the order they are shown. -/
def flags (row : Row) : List (Bool × String) :=
  [(row.registers.isStmt, "is_stmt"),
   (row.registers.basicBlock, "basic_block"),
   (row.registers.endSequence, "end_sequence"),
   (row.registers.prologueEnd, "prologue_end"),
   (row.registers.epilogueBegin, "epilogue_begin")]

def nonzero (name : String) (value : UInt64) : String :=
  if value = 0 then "" else " " ++ name ++ "=" ++ Numeral.decimal value.toNat

/-- The row as one line of a listing. -/
def render (row : Row) : String :=
  Numeral.hexWord row.registers.address.toNat ++ " " ++ row.describe ++
    String.join ((row.flags.filter (·.1)).map (" " ++ ·.2)) ++
    nonzero "op_index" row.registers.opIndex ++
    nonzero "discriminator" row.registers.discriminator

end Row
end DwarfLines
