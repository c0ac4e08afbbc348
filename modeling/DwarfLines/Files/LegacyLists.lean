import DwarfLines.Bytes.Progress
import DwarfLines.Context
import DwarfLines.Files.Table
import DwarfLines.Text.Utf8

/-!
# Directory and file lists before version 5

Both lists are sequences of strings up to an empty one, and each file name is followed by its
directory index, time and size. Directory 0 is the compile directory and file 0 is the unit
itself; neither is written down.
-/

namespace DwarfLines
namespace LegacyLists

/-- A directory name, or the end of the list. -/
def directoryName : Reader ReadError (Option String) := do
  let text ← Reader.terminated
  return if text.isEmpty then none else some (Utf8.decode text)

def fileDetails (name : String) : Reader ReadError FileRecord := do
  let directoryIndex ← Reader.uleb128
  let timestamp ← Reader.uleb128
  let size ← Reader.uleb128
  return { name, directoryIndex, timestamp, size }

/-- A file record, or the end of the list. -/
def fileRecord : Reader ReadError (Option FileRecord) := do
  let text ← Reader.terminated
  if text.isEmpty then return none else some <$> fileDetails (Utf8.decode text)

theorem consuming_directoryName : directoryName.Consuming :=
  Reader.consuming_terminated.bind fun _ => Reader.forward_pure _

theorem forward_fileDetails (name : String) : (fileDetails name).Forward :=
  Reader.consuming_uleb128.forward.bind fun _ =>
    Reader.consuming_uleb128.forward.bind fun _ =>
      Reader.consuming_uleb128.forward.bind fun _ => Reader.forward_pure _

theorem consuming_fileRecord : fileRecord.Consuming := by
  refine Reader.consuming_terminated.bind fun text => ?_
  split
  · exact Reader.forward_pure _
  · exact (forward_fileDetails _).bind fun _ => Reader.forward_pure _

def directoryNames : Reader ReadError (List String) :=
  Reader.untilNone directoryName consuming_directoryName

def fileRecords : Reader ReadError (List FileRecord) :=
  Reader.untilNone fileRecord consuming_fileRecord

end LegacyLists

namespace FileTable

/-- The directories that a list of names declares, after the compile directory. -/
def legacyDirectories (compDir : String) (names : List String) :
    Except LineError (List String) := do
  let declared ← names.mapM (Path.resolveDirectory compDir)
  return compDir :: declared

def legacyFiles (table : FileTable) (records : List FileRecord) :
    Except LineError (List FileEntry) :=
  records.mapM table.entryOf

def readLegacy (context : UnitContext) : Reader LineError FileTable := do
  let compDir ← Path.normalizeDirectory context.compDir
  let directories ← legacyDirectories compDir (← LegacyLists.directoryNames)
  let unitPath ← Path.resolveFile compDir context.name
  let table : FileTable := { compDir, directories }
  let files ← table.legacyFiles (← LegacyLists.fileRecords)
  return { table with files := { path := unitPath, directoryIndex := 0 } :: files }

end FileTable
end DwarfLines
