/-!
# What a line table takes from its unit

A line table does not stand alone. Older versions take the address size from the unit, resolve
relative paths against its compile directory and list its name as file 0; version 5 may keep its
paths in the string sections of the file.
-/

namespace DwarfLines

inductive StringSection where
  | debugStr
  | debugLineStr
  | debugStrSup
  | debugStrOffsets
  deriving DecidableEq, Repr

def StringSection.name : StringSection → String
  | debugStr => ".debug_str"
  | debugLineStr => ".debug_line_str"
  | debugStrSup => ".debug_str_sup"
  | debugStrOffsets => ".debug_str_offsets"

/-- The bytes of the string sections that are present, and where the unit's offsets begin. -/
structure StringSections where
  debugStr : Option (List UInt8) := none
  debugLineStr : Option (List UInt8) := none
  debugStrSup : Option (List UInt8) := none
  debugStrOffsets : Option (List UInt8) := none
  strOffsetsBase : Nat := 0
  deriving DecidableEq, Repr

def StringSections.get? (strings : StringSections) : StringSection → Option (List UInt8)
  | .debugStr => strings.debugStr
  | .debugLineStr => strings.debugLineStr
  | .debugStrSup => strings.debugStrSup
  | .debugStrOffsets => strings.debugStrOffsets

/-- The attributes of the unit a line table belongs to. -/
structure UnitContext where
  addressSize : UInt8 := 8
  compDir : String := ""
  name : String := ""
  strings : StringSections := {}
  deriving DecidableEq, Repr

end DwarfLines
