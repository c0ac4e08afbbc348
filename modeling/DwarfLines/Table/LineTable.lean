import DwarfLines.Header.Reader
import DwarfLines.Table.Pass

/-!
# Line tables

A line table is a program that never changes together with the file table that passes over the
program extend. An address belongs to the row whose range, up to the address of the next row,
contains it; rows that end a sequence have no range of their own. A file that is not yet known is
looked for by one full pass, and after a full pass a missing file is known to be missing.
-/

namespace DwarfLines

/-- A program and the files known so far. -/
structure LineTable where
  program : LineProgram
  files : FileTable
  deriving DecidableEq, Repr

/-- Whether an address lies between two consecutive rows of one sequence. -/
def Row.covers (address : UInt64) (row next : Row) : Bool :=
  row.registers.address ≤ address && address < next.registers.address &&
    !row.registers.endSequence

/-- The first row that covers an address, after the moments up to the row that follows it. -/
def Moment.firstCovering (address : UInt64) :
    List Moment → Option (List Moment × Moment × Row)
  | moment :: next :: rest =>
    if Row.covers address moment.row next.row then
      some ([moment, next], next, moment.row)
    else
      match firstCovering address (next :: rest) with
      | some (seen, last, row) => some (moment :: seen, last, row)
      | none => none
  | _ => none

/-- The part of a trace that a search for an address runs, and the row it finds. -/
def Trace.search (trace : Trace) (address : UInt64) : Trace × Option Row :=
  match Moment.firstCovering address trace.moments with
  | some (seen, last, row) =>
    ({ moments := seen, files := last.files, pass := last.pass, fault := none }, some row)
  | none => (trace, none)

namespace LineTable

def parse (order : ByteOrder) (lines : List UInt8) (offset : Nat) (context : UnitContext) :
    Except LineError LineTable := do
  let bytes ← unitBytes order lines offset
  let ((header, files), last) ← Header.read order bytes.length context (Cursor.start bytes)
  return { program := { header, bytes, tablesEnd := last.offset }, files }

variable (table : LineTable)

def size : Nat := table.program.size

def trace : Trace := (Pass.start table.program).trace table.program table.files

def search (address : UInt64) : Trace × Option Row := table.trace.search address

def findAddress (address : UInt64) : LineTable × Except LineError (Option Row) :=
  let (ran, found) := table.search address
  ({ table with files := ran.files },
    match found, ran.fault with
    | some row, _ => .ok (some row)
    | none, some e => .error e
    | none, none => .ok none)

/-- Runs a whole pass to find late declarations. -/
def scan : LineTable × Except LineError Unit :=
  let ran := (Pass.start table.program).trace table.program table.files.recordFullScan
  match ran.fault with
  | some e => ({ table with files := ran.files }, .error e)
  | none => ({ table with files := ran.files.markComplete }, .ok ())

def knownFile (index : UInt64) : Except LineError FileEntry :=
  match table.files.file? index with
  | some file => .ok file
  | none => .error (.outOfRange index table.files.files.length)

/-- Finds the file with an index, running the program if it may be declared there. -/
def getFile (index : UInt64) : LineTable × Except LineError FileEntry :=
  if (table.files.file? index).isSome ∨ table.files.complete then
    (table, table.knownFile index)
  else
    match table.scan with
    | (scanned, .error e) => (scanned, .error e)
    | (scanned, .ok ()) => (scanned, scanned.knownFile index)

def digest (file : FileEntry) : Except LineError (Option (List UInt8)) :=
  match file.md5Offset with
  | none => .ok none
  | some offset => LineError.ofRead do
    let (bytes, _) ← Reader.take 16 (← Cursor.at? table.program.bytes offset)
    return some bytes

end LineTable
end DwarfLines
