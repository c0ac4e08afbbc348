import DwarfLines.Command.Action
import DwarfLines.Command.Address
import DwarfLines.Command.Arguments
import DwarfLines.Image
import DwarfLines.Report.Table
import DwarfLines.Table.Lookup

/-!
# Running a command

A listing goes through the units one after another, or takes the one that was chosen, and reads a
line table only when its turn comes. A lookup reads its addresses before the binary and all line
tables before the first address is looked up.
-/

namespace DwarfLines

/-- The line that a listing shows before what it says of a unit. -/
def LineUnit.title (unit : LineUnit) : String :=
  "unit " ++ Numeral.decimal unit.index ++ " (" ++ unit.context.name ++ ") at .debug_line+" ++
    Numeral.hex unit.lineOffset

namespace Image

def loadWith (reader : ObjectReader) (path : String)
    (contents : Except StorageError (List UInt8)) : Action Image := do
  let file ← Action.require .object (reader (← Action.require (.unreadable path) contents))
  let (sections, fault) := DebugSection.load file DebugSection.all
  Action.log (sections.map fun (target, bytes) => .loadedSection target.name bytes.length)
  Action.raise .object fault
  let image : Image := { path, order := file.order, sections }
  if (image.contents? .lines).isNone then
    Action.log [.noLineSection path]
  return image

variable (image : Image)

def discoverUnits : Action (List LineUnit) := do
  let units ← Action.require .info image.units
  Action.log [.discoveredUnits image.path units.length]
  return units

def lineTable (unit : LineUnit) : Except CommandError LineTable :=
  match image.contents? .lines with
  | none => .error .noLineSection
  | some lines => (LineTable.parse image.order lines unit.lineOffset unit.context).mapError .line

def readTable (unit : LineUnit) : Action LineTable := do
  let table ← Action.require id (image.lineTable unit)
  Action.log (Event.ofTable unit.lineOffset table)
  return table

/-- The units that a listing goes through: all, or the one with the chosen index. -/
def selectUnits (chosen : Option Nat) : Action (List LineUnit) := do
  let units ← image.discoverUnits
  Action.log [.loadedBinary image.path units.length]
  match chosen with
  | none => return units
  | some index =>
    match units[index]? with
    | some unit => return [unit]
    | none => throw (.noSuchUnit index units.length)

end Image

namespace LineTable

variable (table : LineTable)

/-- Runs a whole pass and gives the rows it was able to give, the table with the files it
appended, and why it failed, if it did. -/
def runPass : Action (List Row × LineTable × Option LineError) := do
  let trace := table.trace
  Action.log (Event.ofTrace table trace)
  return (trace.rows, { table with files := trace.files }, trace.fault)

def listRows (title : String) : Action Unit := do
  Action.print [title]
  let (rows, _, fault) ← table.runPass
  Action.print (rows.map fun row => "  " ++ row.render)
  Action.raise .line fault

/-- Shows the directories and files, those that the program declares included. -/
def listFiles (title : String) : Action Unit := do
  let (_, scanned, fault) ← table.runPass
  Action.raise .line fault
  Action.print [title]
  let (lines, fault) := scanned.fileLines
  Action.print (scanned.directoryLines ++ lines)
  Action.raise .line fault

def listHeader (title : String) : Action Unit :=
  Action.print (title :: table.program.header.lines)

def list (title : String) : Listing → Action Unit
  | .rows => table.listRows title
  | .files => table.listFiles title
  | .header => table.listHeader title

end LineTable

def lookupLine (address : UInt64) (found : Option Row) : String :=
  Numeral.hex address.toNat ++ ": " ++
    match found with
    | some row => row.describe
    | none => "??"

/-- Looks addresses up, each in the tables as the one before left them. -/
def lookupAll (tables : List LineTable) : List UInt64 → Action Unit
  | [] => pure ()
  | address :: rest => do
    let (searched, answer) := LineTable.lookup address tables
    Action.log ((LineTable.lookupTraces address tables).flatMap fun (table, trace) =>
      Event.ofTrace table trace)
    Action.print [lookupLine address (← Action.require .line answer)]
    lookupAll searched rest

def Address.require (text : String) : Action UInt64 :=
  match Address.parse? text with
  | some address => pure address
  | none => throw (.invalidAddress text)

def Command.binary : Command → String
  | .list _ binary _ => binary
  | .lookup binary _ => binary

def Command.runWith (reader : ObjectReader) (contents : Except StorageError (List UInt8)) :
    Command → Action Unit
  | .list listing binary chosen => do
    let image ← Image.loadWith reader binary contents
    let units ← image.selectUnits chosen
    units.forM fun unit => do
      let table ← image.readTable unit
      table.list unit.title listing
  | .lookup binary texts => do
    let addresses ← texts.mapM Address.require
    let image ← Image.loadWith reader binary contents
    let units ← image.discoverUnits
    let tables ← units.mapM image.readTable
    lookupAll tables addresses

end DwarfLines
