import DwarfLines.Bytes.Order

/-!
# Object files

Of an object file only the byte order and the contents of sections matter, which are found by name
and come with any compression undone. What kinds of object file there are is left to a reader: the
program works with any.
-/

namespace DwarfLines

/-- Why a file is not taken for an object file, or a section cannot be had. -/
structure ObjectError where
  message : String
  deriving DecidableEq, Repr

structure ObjectFile where
  order : ByteOrder
  /-- The contents of the section with a name, if there is one. -/
  contents? : String → Except ObjectError (Option (List UInt8))

/-- What tells object files from other files. -/
abbrev ObjectReader := List UInt8 → Except ObjectError ObjectFile

end DwarfLines
