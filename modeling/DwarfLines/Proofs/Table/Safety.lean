import Mathlib
import DwarfLines.Proofs.Header.Checking
import DwarfLines.Proofs.Table.Checking
import DwarfLines.Proofs.Table.Operations

/-!
# Nothing aborts

A header whose divisors would make a run abort is refused, and no operation changes the program of
a table. So reading a table and working with it never abort, in whatever order operations are
done, and no error of theirs is one for what is supposed not to occur.
-/

namespace DwarfLines

theorem LineProgram.Accepted.dividesSafely {program : LineProgram} (h : program.Accepted) :
    program.header.toParameters.DividesSafely :=
  ⟨h.maximumOperations, h.lineRange⟩

def Outcome.errors : Outcome → List LineError
  | .advanced _ (some (.error e)) => [e]
  | .drained trace => trace.fault.toList
  | .found (.error e) => [e]
  | .file (.error e) => [e]
  | _ => []

theorem Outcome.errors_advanced {pass : Pass} {answer : Option (Except LineError Row)}
    {e : LineError} (he : e ∈ (advanced pass answer).errors) : answer = some (.error e) := by
  rcases answer with _ | found | row
  · cases he
  · rw [List.mem_singleton.mp he]
  · cases he

theorem Outcome.errors_found {answer : Except LineError (Option Row)} {e : LineError}
    (he : e ∈ (found answer).errors) : answer = .error e := by
  rcases answer with cause | row
  · rw [List.mem_singleton.mp he]
  · cases he

theorem Outcome.errors_file {answer : Except LineError FileEntry} {e : LineError}
    (he : e ∈ (file answer).errors) : answer = .error e := by
  rcases answer with cause | entry
  · rw [List.mem_singleton.mp he]
  · cases he

namespace Session

variable (session : Session)

def withHandle? (action : LineTable → Option (Session × Outcome)) : Option (Session × Outcome) :=
  match session.handle? with
  | some table => action table
  | none => some (session, .noTable)

def withPass? (id : ℕ) (action : LineTable → Pass → Option (Session × Outcome)) :
    Option (Session × Outcome) :=
  match session.shared, session.pass? id with
  | some table, some pass => action table pass
  | _, _ => some (session, .noPass)

/-- Does an operation; whatever runs the program is checked. -/
def perform? : Operation → Option (Session × Outcome)
  | .rows => session.withHandle? fun table => do
    let trace ← table.trace?
    return (session.setFiles trace.files, .drained trace)
  | .next id => session.withPass? id fun table pass => do
    let advance ← pass.next? table.program table.files
    return ((session.setFiles advance.files).setPass id advance.pass,
      .advanced advance.pass advance.answer)
  | .drain id => session.withPass? id fun table pass => do
    let trace ← pass.trace? table.program table.files
    return ((session.setFiles trace.files).setPass id trace.pass, .drained trace)
  | .find address => session.withHandle? fun table => do
    let (searched, answer) ← table.findAddress? address
    return (session.setFiles searched.files, .found answer)
  | .file index => session.withHandle? fun table => do
    let (searched, answer) ← table.getFile? index
    return (session.setFiles searched.files, .file answer)
  | operation => some (session.perform operation)

def outcomes (session : Session) : List Operation → List Outcome
  | [] => []
  | operation :: rest =>
    (session.perform operation).2 :: (session.perform operation).1.outcomes rest

/-- Does operations one after another, checked, and collects what they give. -/
def performAll? (session : Session) : List Operation → Option (Session × List Outcome)
  | [] => some (session, [])
  | operation :: rest => do
    let (next, outcome) ← session.perform? operation
    let (last, more) ← next.performAll? rest
    return (last, outcome :: more)

/-- Whether the table of a session, if it still has one, is one of a program. -/
def Runs (program : LineProgram) : Prop :=
  ∀ current, session.shared = some current → current.program = program

variable {session} {program : LineProgram}

theorem runs_ofTable (table : LineTable) : (ofTable table).Runs table.program := by
  intro current hcurrent
  cases hcurrent
  rfl

theorem Runs.setFiles (h : session.Runs program) (files : FileTable) :
    (session.setFiles files).Runs program := by
  intro current hcurrent
  obtain ⟨before, hbefore, rfl⟩ := Option.map_eq_some_iff.mp hcurrent
  exact h before hbefore

theorem Runs.release (h : session.Runs program) : session.release.Runs program :=
  fun current hcurrent => h current (session.shared_of_release hcurrent)

theorem Runs.perform (h : session.Runs program) (operation : Operation) :
    (session.perform operation).1.Runs program := by
  have hperforms := session.performs operation
  generalize (session.perform operation).1 = after at hperforms ⊢
  generalize (session.perform operation).2 = outcome at hperforms
  cases hperforms with
  | rows => exact h.setFiles _
  | next => exact h.setFiles _
  | drain => exact h.setFiles _
  | find => exact h.setFiles _
  | file => exact h.setFiles _
  | drop => exact Runs.release h
  | dropHandle => exact Runs.release h
  | _ => exact h

theorem Runs.comesTo_withHandle? (h : session.Runs program)
    {action? : LineTable → Option (Session × Outcome)} {action : LineTable → Session × Outcome}
    (haction : ∀ current, current.program = program →
      ComesTo program.header.toParameters.DividesSafely (action? current) (action current)) :
    ComesTo program.header.toParameters.DividesSafely (session.withHandle? action?)
      (session.withHandle action) := by
  unfold withHandle? withHandle
  cases hhandle : session.handle? with
  | none => exact comesTo_some _
  | some current => exact haction current (h current (shared_of_handle? hhandle))

theorem Runs.comesTo_withPass? (h : session.Runs program) {id : ℕ}
    {action? : LineTable → Pass → Option (Session × Outcome)}
    {action : LineTable → Pass → Session × Outcome}
    (haction : ∀ current pass, current.program = program →
      ComesTo program.header.toParameters.DividesSafely (action? current pass)
        (action current pass)) :
    ComesTo program.header.toParameters.DividesSafely (session.withPass? id action?)
      (session.withPass id action) := by
  unfold withPass? withPass
  cases hshared : session.shared with
  | none => exact comesTo_some _
  | some current =>
    cases session.pass? id with
    | none => exact comesTo_some _
    | some pass => exact haction current pass (h current hshared)

/-- An operation aborts only where a run of the program does. -/
theorem Runs.comesTo_perform? (h : session.Runs program) (operation : Operation) :
    ComesTo program.header.toParameters.DividesSafely (session.perform? operation)
      (session.perform operation) := by
  cases operation with
  | rows =>
    apply h.comesTo_withHandle?
    rintro current rfl
    exact current.comesTo_trace?.bind (comesTo_some _)
  | next id =>
    apply h.comesTo_withPass?
    rintro current pass rfl
    exact (pass.comesTo_next? current.files).bind (comesTo_some _)
  | drain id =>
    apply h.comesTo_withPass?
    rintro current pass rfl
    exact (pass.comesTo_trace? current.files).bind (comesTo_some _)
  | find address =>
    apply h.comesTo_withHandle?
    rintro current rfl
    exact (current.comesTo_findAddress? address).bind (comesTo_some _)
  | file index =>
    apply h.comesTo_withHandle?
    rintro current rfl
    exact (current.comesTo_getFile? index).bind (comesTo_some _)
  | _ => exact comesTo_some _

theorem Runs.external_perform (h : session.Runs program) (hrange : program.header.lineRange ≠ 0)
    (operation : Operation) {e : LineError} (he : e ∈ (session.perform operation).2.errors) :
    e.isInternal = false := by
  have hcurrent {current : LineTable} (hshared : session.shared = some current) :
      current.program.header.lineRange ≠ 0 := by
    rw [h current hshared]
    exact hrange
  have hperforms := session.performs operation
  generalize (session.perform operation).1 = after at hperforms
  generalize (session.perform operation).2 = outcome at hperforms he
  cases hperforms with
  | rows hshared =>
    exact Pass.external_trace (hcurrent hshared) _ _ (Option.mem_toList.mp he)
  | next id hshared hpass =>
    exact Pass.external_next (hcurrent hshared) _ _ (Outcome.errors_advanced he)
  | drain id hshared hpass =>
    exact Pass.external_trace (hcurrent hshared) _ _ (Option.mem_toList.mp he)
  | find address hshared =>
    exact LineTable.external_findAddress _ (hcurrent hshared) address e (Outcome.errors_found he)
  | file index hshared =>
    exact LineTable.external_getFile _ (hcurrent hshared) index e (Outcome.errors_file he)
  | _ => cases he

theorem Runs.performAll (h : session.Runs program) (operations : List Operation) :
    (session.performAll operations).Runs program := by
  induction operations generalizing session with
  | nil => exact h
  | cons operation rest ih => exact ih (h.perform operation)

theorem Runs.comesTo_performAll? (h : session.Runs program) (operations : List Operation) :
    ComesTo program.header.toParameters.DividesSafely (session.performAll? operations)
      (session.performAll operations, session.outcomes operations) := by
  induction operations generalizing session with
  | nil => exact comesTo_some _
  | cons operation rest ih =>
    apply (h.comesTo_perform? operation).bind
    exact (ih (h.perform operation)).bind (comesTo_some _)

theorem Runs.external_outcomes (h : session.Runs program)
    (hrange : program.header.lineRange ≠ 0) (operations : List Operation) :
    ∀ outcome ∈ session.outcomes operations, ∀ e ∈ outcome.errors, e.isInternal = false := by
  induction operations generalizing session with
  | nil =>
    intro outcome houtcome
    cases houtcome
  | cons operation rest ih =>
    intro outcome houtcome e he
    rw [outcomes] at houtcome
    rcases List.mem_cons.mp houtcome with rfl | hrest
    · exact h.external_perform hrange operation he
    · exact ih (h.perform operation) outcome hrest e he

end Session

/-- What is shown of a table is shown without aborting and without an internal error: the header,
the digest of any file and the list of files. -/
structure LineTable.ShowsSafely (table : LineTable) : Prop where
  header : table.program.header.lines? = some table.program.header.lines
  digest : ∀ file, External (table.digest file)
  files : ∀ e, table.fileLines.2 = some e → e.isInternal = false

/-- Operations are done without aborting and without an internal error, and so is what is shown of
the table after them, if it still lives. -/
structure Session.WorksSafely (session : Session) (operations : List Operation) : Prop where
  performs : session.performAll? operations =
    some (session.performAll operations, session.outcomes operations)
  errors : ∀ outcome ∈ session.outcomes operations, ∀ e ∈ outcome.errors, e.isInternal = false
  shows : ∀ current, (session.performAll operations).shared = some current → current.ShowsSafely

namespace LineTable

variable {order : ByteOrder} {lines : List UInt8} {offset : ℕ} {context : UnitContext}
  {table : LineTable}

theorem operandCounts_of_parse (h : parse order lines offset context = .ok table) :
    0 < table.program.header.operandCounts.length := by
  obtain ⟨layout, -, hlayout, -⟩ := exists_explains_of_parse h
  rw [hlayout.length_operandCounts]
  exact UInt8.pos_iff_ne_zero.mpr (accepted_of_parse h).1.opcodeBase

theorem worksSafely_of_parse (h : parse order lines offset context = .ok table)
    (operations : List Operation) : (Session.ofTable table).WorksSafely operations := by
  obtain ⟨haccepted, -⟩ := accepted_of_parse h
  have hruns := Session.runs_ofTable table
  constructor
  · exact (hruns.comesTo_performAll? operations).eq_some haccepted.dividesSafely
  · exact hruns.external_outcomes haccepted.lineRange operations
  · intro current hcurrent
    constructor
    · rw [hruns.performAll operations current hcurrent]
      exact Header.lines?_eq (operandCounts_of_parse h)
    · exact current.external_digest
    · intro e he
      exact current.external_fileLines he

/-- Whatever stands in the line section, reading a table aborts nowhere and gives no internal
error, and neither does anything that is done with the table after that. -/
theorem never_aborts (order : ByteOrder) (lines : List UInt8) (offset : ℕ)
    (context : UnitContext) :
    (∀ path, Path.isAbsolute? path = some (Path.isAbsolute path)) ∧
      parse? order lines offset context = some (parse order lines offset context) ∧
      External (parse order lines offset context) ∧
      ∀ table, parse order lines offset context = .ok table →
        ∀ operations, (Session.ofTable table).WorksSafely operations := by
  refine ⟨Path.isAbsolute?_eq, parse?_eq order lines offset context,
    external_parse order lines offset context, ?_⟩
  intro table htable operations
  exact worksSafely_of_parse htable operations

/-- A unit whose program advances by the constant and by an operand, and then by an opcode that
changes the line too. -/
theorem never_aborts_constant_advance :
    ∃ table, parse .little
        [35, 0, 0, 0, 2, 0, 21, 0, 0, 0, 1, 1, 251, 14, 10, 0, 1, 1, 1, 1, 0, 0, 0, 1,
          0, 97, 0, 0, 0, 0, 0, 8, 2, 4, 1, 38, 0, 1, 1] 0 { compDir := "/", name := "u" } =
          .ok table ∧
      table.trace.rows.map (·.registers.address) = [21, 23, 23] ∧
      (Session.ofTable table).WorksSafely
        [.start 0, .next 0, .find 22, .file 1, .file 9, .drain 0, .next 0, .rows] := by
  have hknown : (parse .little
      [35, 0, 0, 0, 2, 0, 21, 0, 0, 0, 1, 1, 251, 14, 10, 0, 1, 1, 1, 1, 0, 0, 0, 1,
        0, 97, 0, 0, 0, 0, 0, 8, 2, 4, 1, 38, 0, 1, 1] 0 { compDir := "/", name := "u" }).map
        (fun table => table.trace.rows.map (·.registers.address)) = .ok [21, 23, 23] := by
    decide +kernel
  cases hparse : parse .little
      [35, 0, 0, 0, 2, 0, 21, 0, 0, 0, 1, 1, 251, 14, 10, 0, 1, 1, 1, 1, 0, 0, 0, 1,
        0, 97, 0, 0, 0, 0, 0, 8, 2, 4, 1, 38, 0, 1, 1] 0 { compDir := "/", name := "u" } with
  | error e => simp [hparse, Except.map] at hknown
  | ok table =>
    obtain ⟨-, -, -, hworks⟩ := never_aborts .little _ 0 _
    refine ⟨table, rfl, ?_, hworks table hparse _⟩
    rw [hparse] at hknown
    exact Except.ok.inj hknown

end LineTable
end DwarfLines
