import DwarfLines.Info.Unit
import DwarfLines.Object.File
import DwarfLines.Table.LineTable

/-!
# The debug sections of a binary

An image holds those debug sections of one binary that line tables need. From it come the units
that have a line table and, one at a time, their tables, so that a malformed table concerns its
own unit only.
-/

namespace DwarfLines

inductive DebugSection where
  | abbreviations
  | addresses
  | info
  | lines
  | lineStrings
  | strings
  | strOffsets
  | supplementaryStrings
  deriving DecidableEq, Repr

namespace DebugSection

def name : DebugSection → String
  | abbreviations => ".debug_abbrev"
  | addresses => ".debug_addr"
  | info => ".debug_info"
  | lines => ".debug_line"
  | lineStrings => ".debug_line_str"
  | strings => ".debug_str"
  | strOffsets => ".debug_str_offsets"
  | supplementaryStrings => ".debug_str_sup"

def shortName? : DebugSection → Option String
  | abbreviations => some "__debug_abbrev"
  | addresses => some "__debug_addr"
  | info => some "__debug_info"
  | lines => some "__debug_line"
  | lineStrings => some "__debug_line_str"
  | strings => some "__debug_str"
  | strOffsets => some "__debug_str_offs"
  | supplementaryStrings => none

/-- All sections, in the order they are loaded. -/
def all : List DebugSection :=
  [abbreviations, addresses, info, lines, lineStrings, strings, strOffsets, supplementaryStrings]

/-- The contents of a section under the spelling that is found first. -/
def contents? (file : ObjectFile) (target : DebugSection) :
    Except ObjectError (Option (List UInt8)) := do
  match ← file.contents? target.name, target.shortName? with
  | some bytes, _ => return some bytes
  | none, some short => file.contents? short
  | none, none => return none

/-- The contents of the sections that are present, up to the first that cannot be had. -/
def load (file : ObjectFile) :
    List DebugSection → List (DebugSection × List UInt8) × Option ObjectError
  | [] => ([], none)
  | target :: rest =>
    match target.contents? file with
    | .error e => ([], some e)
    | .ok none => load file rest
    | .ok (some bytes) =>
      let (more, fault) := load file rest
      ((target, bytes) :: more, fault)

end DebugSection

structure Image where
  path : String
  order : ByteOrder
  sections : List (DebugSection × List UInt8)
  deriving DecidableEq, Repr

namespace Image

variable (image : Image)

def contents? (target : DebugSection) : Option (List UInt8) := image.sections.lookup target

def strings : StringSections where
  debugStr := image.contents? .strings
  debugLineStr := image.contents? .lineStrings
  debugStrSup := image.contents? .supplementaryStrings
  debugStrOffsets := image.contents? .strOffsets

/-- What units are found in. -/
def info : InfoSections where
  order := image.order
  info := (image.contents? .info).getD []
  abbreviations := (image.contents? .abbreviations).getD []
  strings := image.strings

def units : Except ReadError (List LineUnit) := image.info.units

end Image
end DwarfLines
