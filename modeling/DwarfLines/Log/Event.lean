import DwarfLines.Log.Setting
import DwarfLines.Report.Row

/-!
# Events

What is worth telling about a run is told as events. Events of the decoder can be read off its
results: the files that a pass appended, whether it completed the file table, and the rows it
gave, in this order for each row.
-/

namespace DwarfLines

inductive Event where
  | loadedSection (name : String) (size : Nat)
  | noLineSection (path : String)
  | discoveredUnits (path : String) (units : Nat)
  | loadedBinary (path : String) (units : Nat)
  | headerLengthDisagrees (tablesEnd programOffset : Nat)
  | parsedHeader (offset : Nat) (version : UInt16) (files directories : Nat)
  | appendedFile (index : Nat) (path : String)
  | emittedRow (address : UInt64) (line : Int64)
  | executedProgram (offset : Nat)
  deriving DecidableEq, Repr

inductive FieldValue where
  | number (value : Int)
  | text (value : String)
  deriving DecidableEq, Repr

namespace Event

def level : Event → LogLevel
  | noLineSection _ => .warn
  | loadedBinary _ _ => .info
  | appendedFile _ _ | emittedRow _ _ => .trace
  | _ => .debug

/-- The name under which settings choose events from the same part of the program. -/
def target : Event → String
  | loadedSection _ _ | noLineSection _ | discoveredUnits _ _ | loadedBinary _ _ => "linetab"
  | _ => "linetab_core"

def message : Event → String
  | loadedSection _ _ => "loaded DWARF section"
  | noLineSection _ => "binary has no .debug_line section"
  | discoveredUnits _ _ => "discovered units with line tables"
  | loadedBinary _ _ => "loaded binary"
  | headerLengthDisagrees _ _ =>
    "line table header length disagrees with its directory/file tables"
  | parsedHeader _ _ _ _ => "parsed line table header"
  | appendedFile _ _ => "define_file appended file entry"
  | emittedRow _ _ => "emitted line table row"
  | executedProgram _ => "line number program fully executed, file table complete"

def fields : Event → List (String × FieldValue)
  | loadedSection name size => [("section", .text name), ("size", .number size)]
  | noLineSection path => [("path", .text path)]
  | discoveredUnits path units => [("path", .text path), ("units", .number units)]
  | loadedBinary path units => [("path", .text path), ("units", .number units)]
  | headerLengthDisagrees tablesEnd programOffset =>
    [("tables_end", .number tablesEnd), ("program_offset", .number programOffset)]
  | parsedHeader offset version files directories =>
    [("offset", .number offset), ("version", .number version.toNat), ("files", .number files),
     ("directories", .number directories)]
  | appendedFile index path => [("index", .number index), ("path", .text path)]
  | emittedRow address line =>
    [("address", .number address.toNat), ("line", .number line.toInt)]
  | executedProgram offset => [("offset", .number offset)]

def ofTable (offset : Nat) (table : LineTable) : List Event :=
  let header := table.program.header
  let parsed := parsedHeader offset header.version table.files.files.length
    table.files.directories.length
  if table.program.tablesEnd = header.programOffset then
    [parsed]
  else
    [headerLengthDisagrees table.program.tablesEnd header.programOffset, parsed]

def ofAppended (index : Nat) : List FileEntry → List Event
  | [] => []
  | file :: rest => appendedFile index file.path :: ofAppended (index + 1) rest

/-- The events of extending a file table while a program of the given size runs. -/
def ofFiles (size : Nat) (before after : FileTable) : List Event :=
  ofAppended before.files.length (after.files.drop before.files.length) ++
    if before.complete || !after.complete then [] else [executedProgram size]

/-- The events of giving rows, beginning with the given file table, and the table after them. -/
def ofMoments (size : Nat) (before : FileTable) : List Moment → List Event × FileTable
  | [] => ([], before)
  | moment :: rest =>
    let (later, last) := ofMoments size moment.files rest
    (ofFiles size before moment.files ++
      emittedRow moment.row.registers.address moment.row.registers.line :: later, last)

def ofTrace (table : LineTable) (trace : Trace) : List Event :=
  let (given, last) := ofMoments table.size table.files trace.moments
  given ++ ofFiles table.size last trace.files

end Event
end DwarfLines
