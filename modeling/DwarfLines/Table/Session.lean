import DwarfLines.Table.LineTable

/-!
# Working with one line table

A session holds a handle to a table, any number of numbered passes over it and perhaps a weak
handle. The table lives as long as the handle or some pass holds it, whether that pass is finished
or not; a weak handle finds it for as long as it lives and never brings it back. All operations
share the one file table, so what one of them learns about files the others see.
-/

namespace DwarfLines

/-- A table and what holds it. -/
structure Session where
  /-- The table, until nothing holds it. -/
  shared : Option LineTable
  /-- Whether the handle holds the table. -/
  held : Bool
  /-- Whether a weak handle was taken. -/
  weak : Bool := false
  /-- The passes, by number. -/
  passes : List (Nat × Pass) := []
  deriving DecidableEq, Repr

inductive Operation where
  | rows
  | start (id : Nat)
  | next (id : Nat)
  | drain (id : Nat)
  | clone (id source : Nat)
  | drop (id : Nat)
  | find (address : UInt64)
  | file (index : UInt64)
  | downgrade
  | dropHandle
  | restore
  deriving DecidableEq, Repr

inductive Outcome where
  | noTable
  | noPass
  | place (pass : Pass)
  | advanced (pass : Pass) (answer : Option (Except LineError Row))
  | drained (trace : Trace)
  | found (answer : Except LineError (Option Row))
  | file (answer : Except LineError FileEntry)
  | dropped (was : Bool)
  | downgraded
  | restored (done : Bool)

namespace Session

def ofTable (table : LineTable) : Session where
  shared := some table
  held := true

variable (session : Session)

def handle? : Option LineTable := if session.held then session.shared else none

/-- The table, if a weak handle was taken and the table lives. -/
def upgrade? : Option LineTable := if session.weak then session.shared else none

def pass? (id : Nat) : Option Pass := session.passes.lookup id

/-- Gives the table up if nothing holds it. -/
def release : Session :=
  if session.held || !session.passes.isEmpty then session else { session with shared := none }

def removePass (id : Nat) : Session :=
  { session with passes := session.passes.filter (·.1 != id) }

/-- Makes or replaces the pass with a number. -/
def setPass (id : Nat) (pass : Pass) : Session :=
  { session with passes := (id, pass) :: (session.removePass id).passes }

def setFiles (files : FileTable) : Session :=
  { session with shared := session.shared.map ({ · with files }) }

def withHandle (action : LineTable → Session × Outcome) : Session × Outcome :=
  match session.handle? with
  | some table => action table
  | none => (session, .noTable)

def withPass (id : Nat) (action : LineTable → Pass → Session × Outcome) : Session × Outcome :=
  match session.shared, session.pass? id with
  | some table, some pass => action table pass
  | _, _ => (session, .noPass)

def perform : Operation → Session × Outcome
  | .rows => session.withHandle fun table =>
    (session.setFiles table.trace.files, .drained table.trace)
  | .start id => session.withHandle fun table =>
    let pass := Pass.start table.program
    (session.setPass id pass, .place pass)
  | .next id => session.withPass id fun table pass =>
    let advance := pass.next table.program table.files
    ((session.setFiles advance.files).setPass id advance.pass,
      .advanced advance.pass advance.answer)
  | .drain id => session.withPass id fun table pass =>
    let trace := pass.trace table.program table.files
    ((session.setFiles trace.files).setPass id trace.pass, .drained trace)
  | .clone id source => session.withPass source fun _ pass =>
    (session.setPass id pass, .place pass)
  | .drop id => ((session.removePass id).release, .dropped (session.pass? id).isSome)
  | .find address => session.withHandle fun table =>
    let (searched, answer) := table.findAddress address
    (session.setFiles searched.files, .found answer)
  | .file index => session.withHandle fun table =>
    let (searched, answer) := table.getFile index
    (session.setFiles searched.files, .file answer)
  | .downgrade => session.withHandle fun _ => ({ session with weak := true }, .downgraded)
  | .dropHandle => (({ session with held := false } : Session).release, .dropped session.held)
  | .restore =>
    match session.upgrade? with
    | some _ => ({ session with held := true }, .restored true)
    | none => (session, .restored false)

def performAll (operations : List Operation) : Session :=
  operations.foldl (fun current operation => (current.perform operation).1) session

end Session
end DwarfLines
