import DwarfLines.Bytes.Progress
import DwarfLines.Dwarf.FormValue
import DwarfLines.Files.Table

/-!
# Directory and file lists of version 5

A list is preceded by its columns, each a content type and a form. Directories have one column,
their path. Files may have any columns; those with a standard content type must have a form that
suits it, and all others are skipped. Every entry is written down, the compile directory and the
unit included.
-/

namespace DwarfLines

/-- A column of a directory or file list. -/
structure EntryColumn where
  contentType : UInt16
  form : UInt16
  deriving DecidableEq, Repr

namespace EntryColumn

/-- Reads a column; both its numbers must fit sixteen bits. -/
def read : Reader LineError EntryColumn := do
  let contentType ← Reader.uleb128
  let form ← Reader.uleb128
  if 0xffff < contentType then
    Reader.reject (.contentTypeRange contentType)
  else if 0xffff < form then
    Reader.reject (.formRange form)
  else
    return { contentType := contentType.toUInt16, form := form.toUInt16 }

def isPathForm (code : UInt16) : Bool :=
  match Form.ofCode? code with
  | some .string | some .lineStrp | some .strp | some .strpSup
  | some .strx | some .strx1 | some .strx2 | some .strx4 => true
  | _ => false

def isAllowed (column : EntryColumn) : Bool :=
  match ContentType.ofCode? column.contentType with
  | some .path => isPathForm column.form
  | some .directoryIndex =>
    match Form.ofCode? column.form with
    | some .data1 | some .data2 | some .udata => true
    | _ => false
  | some .timestamp =>
    match Form.ofCode? column.form with
    | some .data4 | some .data8 | some .udata | some .block => true
    | _ => false
  | some .size =>
    match Form.ofCode? column.form with
    | some .data1 | some .data2 | some .data4 | some .data8 | some .udata => true
    | _ => false
  | some .md5 => Form.ofCode? column.form == some .data16
  | _ => true

def readDirectoryFormat : Reader LineError (List EntryColumn) := do
  let count ← Reader.byte
  if count ≠ 1 then
    Reader.reject (.directoryFormatCount count)
  else
    let column ← read
    if column.contentType ≠ ContentType.path.code then
      Reader.reject (.directoryFormatType column.contentType)
    else if isPathForm column.form then
      return [column]
    else
      Reader.reject (.directoryFormatForm column.form)

def readAllowed : Reader LineError EntryColumn := do
  let column ← read
  if column.isAllowed then
    return column
  else
    Reader.reject (.fileFormatForm column.contentType column.form)

def readFileFormat : Reader LineError (List EntryColumn) := do
  let count ← Reader.byte
  if count = 0 then
    Reader.reject .emptyFileFormat
  else
    Reader.times readAllowed count.toNat

end EntryColumn

namespace FileTable

variable (layout : FormLayout)

def readDirectory (compDir : String) (columns : List EntryColumn) : Reader LineError String := do
  let raw ← columns.foldlM (fun _ column => layout.string column.form) ""
  Path.resolveDirectory compDir raw

/-- Reads one column of a file into the entry read so far, whose path is not yet resolved. -/
def readColumn (entry : FileEntry) (column : EntryColumn) : Reader LineError FileEntry :=
  match ContentType.ofCode? column.contentType with
  | some .path => do return { entry with path := ← layout.string column.form }
  | some .directoryIndex => do
    return { entry with directoryIndex := ← layout.unsigned column.form }
  | some .timestamp => do
    if column.form = Form.block.code then
      layout.skip column.form
      return entry
    else
      return { entry with timestamp := some (← layout.unsigned column.form) }
  | some .size => do return { entry with size := some (← layout.unsigned column.form) }
  | some .md5 => do
    let offset ← Reader.offset
    layout.skip column.form
    return { entry with md5Offset := some offset }
  | _ => do
    layout.skip column.form
    return entry

def readFile (table : FileTable) (columns : List EntryColumn) : Reader LineError FileEntry := do
  let entry ← columns.foldlM (readColumn layout) { path := "", directoryIndex := 0 }
  let path ← Path.resolveFile (table.directoryAt entry.directoryIndex) entry.path
  return { entry with path }

/-- The compile directory of a version 5 table, which may be unknown. -/
def optionalCompDir (compDir : String) : Except LineError String :=
  if compDir.isEmpty then .ok "" else Path.normalizeDirectory compDir

def readDirectories (columns : List EntryColumn) (context : UnitContext) :
    Reader LineError FileTable := do
  let compDir ← optionalCompDir context.compDir
  let count ← Reader.uleb128
  if count = 0 then
    Reader.reject .noDirectories
  else
    let directories ← Reader.times (readDirectory layout compDir columns) count.toNat
    return { compDir, directories }

def readFiles (table : FileTable) (columns : List EntryColumn) : Reader LineError FileTable := do
  let count ← Reader.uleb128
  if count = 0 then
    Reader.reject .noFiles
  else
    let files ← Reader.times (table.readFile layout columns) count.toNat
    return { table with files }

end FileTable
end DwarfLines
