import DwarfLines.Table.LineTable

/-!
# Headers and file lists as text
-/

namespace DwarfLines

def bracketed (values : List String) : String := "[" ++ ", ".intercalate values ++ "]"

def truth (b : Bool) : String := if b then "true" else "false"

namespace Header

variable (header : Header)

def columnLines (label : String) (columns : List EntryColumn) : List String :=
  columns.map fun column =>
    label ++ ContentType.label column.contentType ++ " " ++ Form.label column.form

def lines : List String :=
  ["  version:                " ++ Numeral.decimal header.version.toNat,
   "  format:                 " ++ Numeral.decimal (header.format.wordSize * 8) ++ "-bit",
   "  unit length:            " ++ Numeral.hex header.unitLength,
   "  address size:           " ++ Numeral.decimal header.addressSize.toNat,
   "  header length:          " ++ Numeral.hex header.headerLength,
   "  min instruction length: " ++ Numeral.decimal header.minimumInstructionLength.toNat,
   "  max ops per insn:       " ++ Numeral.decimal header.maximumOperations.toNat,
   "  default is_stmt:        " ++ truth header.defaultIsStmt,
   "  line base:              " ++ Numeral.signedDecimal header.lineBase.toInt,
   "  line range:             " ++ Numeral.decimal header.lineRange.toNat,
   "  opcode base:            " ++ Numeral.decimal header.opcodeBase.toNat,
   "  standard opcode lengths: " ++
     bracketed ((header.operandCounts.drop 1).map fun n => Numeral.decimal n.toNat)] ++
  columnLines "  directory format:       " header.directoryFormat ++
  columnLines "  file format:            " header.fileFormat

end Header

namespace LineTable

variable (table : LineTable)

def directoryLine (index : Nat) (path : String) : String :=
  "  dir  " ++ Numeral.column index ++ " " ++ path

def known (name : String) : Option UInt64 → String
  | none => ""
  | some value => " " ++ name ++ "=" ++ Numeral.decimal value.toNat

def fileLine (index : Nat) (file : FileEntry) : Except LineError String := do
  let digest ← table.digest file
  return "  file " ++ Numeral.column index ++ " " ++ file.path ++
    " (dir " ++ Numeral.decimal file.directoryIndex.toNat ++ ")" ++
    known "size" file.size ++ known "mtime" file.timestamp ++
    match digest with
    | none => ""
    | some bytes => " md5=" ++ String.join (bytes.map Numeral.hexByte)

def directoryLines : List String := table.files.directories.mapIdx directoryLine

def fileLines : List String × Option LineError :=
  go 0 table.files.files
where
  /-- Shows the files from an index on. -/
  go (index : Nat) : List FileEntry → List String × Option LineError
    | [] => ([], none)
    | file :: rest =>
      match table.fileLine index file with
      | .error e => ([], some e)
      | .ok line =>
        let (more, fault) := go (index + 1) rest
        (line :: more, fault)

end LineTable

namespace EntryColumn

def inspect (column : EntryColumn) : String :=
  "FormatEntry \x7b content_type: DwLnct(" ++ Numeral.decimal column.contentType.toNat ++
    "), form: DwForm(" ++ Numeral.decimal column.form.toNat ++ ") \x7d"

end EntryColumn

def field (name value : String) : String := name ++ ": " ++ value

def DwarfFormat.inspect : DwarfFormat → String
  | .dwarf32 => "Dwarf32"
  | .dwarf64 => "Dwarf64"

def Header.inspect (header : Header) : String :=
  "Header \x7b " ++ ", ".intercalate
    [field "version" (Numeral.decimal header.version.toNat),
     field "format" header.format.inspect,
     field "unit_length" (Numeral.decimal header.unitLength),
     field "address_size" (Numeral.decimal header.addressSize.toNat),
     field "segment_selector_size" (Numeral.decimal header.segmentSelectorSize.toNat),
     field "header_length" (Numeral.decimal header.headerLength),
     field "program_offset" (Numeral.decimal header.programOffset),
     field "minimum_instruction_length" (Numeral.decimal header.minimumInstructionLength.toNat),
     field "maximum_operations_per_instruction" (Numeral.decimal header.maximumOperations.toNat),
     field "default_is_stmt" (truth header.defaultIsStmt),
     field "line_base" (Numeral.signedDecimal header.lineBase.toInt),
     field "line_range" (Numeral.decimal header.lineRange.toNat),
     field "opcode_base" (Numeral.decimal header.opcodeBase.toNat),
     field "standard_opcode_lengths"
       (bracketed (header.operandCounts.map fun n => Numeral.decimal n.toNat)),
     field "directory_format" (bracketed (header.directoryFormat.map EntryColumn.inspect)),
     field "file_format" (bracketed (header.fileFormat.map EntryColumn.inspect))] ++ " \x7d"

def LineTable.inspect (table : LineTable) : String :=
  "LineTable \x7b " ++ ", ".intercalate
    [field "header" table.program.header.inspect,
     field "size" (Numeral.decimal table.size),
     field "complete" (truth table.files.complete), ".."] ++ " \x7d"

end DwarfLines
