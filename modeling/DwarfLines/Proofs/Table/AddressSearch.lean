import Mathlib
import DwarfLines.Proofs.Bytes.Gives
import DwarfLines.Proofs.Table.Sequences
import DwarfLines.Proofs.Table.Chronicle

/-!
# The search for an address, row by row

A search asks a fresh pass for one row after another and stops as soon as the row before and the
row just given enclose the address. What it finds is told by the rows of the whole pass and its
fault alone: the first row in whose range the address lies, however the pass goes on after it, and
where no range contains the address the fault of the pass, if it has one.
-/

namespace DwarfLines

/-- Whether an address lies in the range of the row at an index. The range goes from the row's
address up to that of the row after it, and a row that ends a sequence has none. -/
def Row.RangeContains (address : UInt64) (rows : List Row) (index : ℕ) : Prop :=
  ∃ row next, rows[index]? = some row ∧ rows[index + 1]? = some next ∧
    row.registers.address ≤ address ∧ address < next.registers.address ∧
    row.registers.endSequence = false

/-- Asks a pass for rows until the last two enclose an address. -/
def Pass.seek (program : LineProgram) (address : UInt64) (files : FileTable) (pass : Pass)
    (previous : Row) : FileTable × Except LineError (Option Row) :=
  let advance := pass.next program files
  match h : advance.answer with
  | none => (advance.files, .ok none)
  | some (.error e) => (advance.files, .error e)
  | some (.ok row) =>
    have := next_offset h
    if Row.covers address previous row then (advance.files, .ok (some previous))
    else seek program address advance.files advance.pass row
termination_by program.size - pass.offset

def LineTable.seek (table : LineTable) (address : UInt64) :
    LineTable × Except LineError (Option Row) :=
  let advance := (Pass.start table.program).next table.program table.files
  match advance.answer with
  | none => ({ table with files := advance.files }, .ok none)
  | some (.error e) => ({ table with files := advance.files }, .error e)
  | some (.ok row) =>
    let (files, answer) := advance.pass.seek table.program address advance.files row
    ({ table with files }, answer)

/-- How a pass ends for a search that found nothing. -/
def Trace.missed (trace : Trace) : Except LineError (Option Row) :=
  match trace.fault with
  | some e => .error e
  | none => .ok none

namespace Row

variable {address : UInt64}

theorem rangeContains_zero {row next : Row} {rest : List Row} :
    RangeContains address (row :: next :: rest) 0 ↔ covers address row next = true := by
  simp [RangeContains, covers, and_assoc]

theorem rangeContains_succ {row : Row} {rest : List Row} {index : ℕ} :
    RangeContains address (row :: rest) (index + 1) ↔ RangeContains address rest index := by
  simp [RangeContains]

theorem firstCovering?_of_least {rows : List Row} {index : ℕ} {row : Row}
    (hrow : rows[index]? = some row) (hin : RangeContains address rows index)
    (hleast : ∀ earlier < index, ¬ RangeContains address rows earlier) :
    firstCovering? address rows = some row := by
  induction rows generalizing index with
  | nil => simp at hrow
  | cons first rest ih =>
    cases rest with
    | nil =>
      obtain ⟨-, next, -, hnext, -⟩ := hin
      simp at hnext
    | cons second rest =>
      rw [firstCovering?]
      cases index with
      | zero =>
        rw [if_pos (rangeContains_zero.mp hin)]
        simpa using hrow
      | succ index =>
        have hfirst : ¬ covers address first second = true := by
          intro hcovers
          exact hleast 0 (by omega) (rangeContains_zero.mpr hcovers)
        rw [if_neg hfirst]
        apply ih (by simpa using hrow) (rangeContains_succ.mp hin)
        intro earlier hearlier hcontains
        exact hleast (earlier + 1) (by omega) (rangeContains_succ.mpr hcontains)

theorem firstCovering?_of_none {rows : List Row}
    (hnone : ∀ index, ¬ RangeContains address rows index) :
    firstCovering? address rows = none := by
  induction rows with
  | nil => rfl
  | cons first rest ih =>
    cases rest with
    | nil => rfl
    | cons second rest =>
      have hfirst : ¬ covers address first second = true := by
        intro hcovers
        exact hnone 0 (rangeContains_zero.mpr hcovers)
      rw [firstCovering?, if_neg hfirst]
      apply ih
      intro index hcontains
      exact hnone (index + 1) (rangeContains_succ.mpr hcontains)

end Row

/-- Seeking row by row finds what is first in the whole trace of the pass, and leaves the files as
they are at the row where it stops. -/
theorem Pass.seek_eq (program : LineProgram) (address : UInt64) (files : FileTable) (pass : Pass)
    (moment : Moment) :
    pass.seek program address files moment.row =
      match Moment.firstCovering address (moment :: (pass.trace program files).moments) with
      | some (_, last, row) => (last.files, .ok (some row))
      | none => ((pass.trace program files).files, (pass.trace program files).missed) := by
  generalize hprevious : moment.row = previous
  fun_induction Pass.seek program address files pass previous generalizing moment with
  | case1 files pass previous advance hanswer =>
    rw [Pass.trace_eq, Advance.trace, hanswer]
    rfl
  | case2 files pass previous advance e hanswer =>
    rw [Pass.trace_eq, Advance.trace, hanswer]
    rfl
  | case3 files pass previous advance row hanswer hoffset hcovers =>
    rw [Pass.trace_eq, Advance.trace, hanswer]
    simp [Moment.firstCovering, hprevious, hcovers, advance]
  | case4 files pass previous advance row hanswer hoffset hcovers ih =>
    rw [Pass.trace_eq, Advance.trace, hanswer]
    simp only [Moment.firstCovering, hprevious, hcovers]
    rw [ih ⟨row, advance.files, advance.pass⟩ rfl]
    dsimp only [advance]
    generalize Moment.firstCovering address _ = found
    cases found <;> rfl

namespace LineTable

theorem findAddress_eq_seek (table : LineTable) (address : UInt64) :
    table.findAddress address = table.seek address := by
  unfold findAddress search Trace.search seek trace
  rw [Pass.trace_eq]
  generalize (Pass.start table.program).next table.program table.files = advance
  obtain ⟨files, pass, answer⟩ := advance
  rcases answer with _ | e | row
  · simp [Advance.trace, Moment.firstCovering]
  · simp [Advance.trace, Moment.firstCovering]
  · have hseek := pass.seek_eq table.program address files ⟨row, files, pass⟩
    simp only [Advance.trace, hseek]
    cases Moment.firstCovering address
      (⟨row, files, pass⟩ :: (pass.trace table.program files).moments) with
    | none => cases hfault : (pass.trace table.program files).fault <;>
        simp [hfault, Trace.missed]
    | some found => rfl

theorem findAddress_of_least {table : LineTable} {address : UInt64} {index : ℕ} {row : Row}
    (hrow : table.trace.rows[index]? = some row)
    (hin : Row.RangeContains address table.trace.rows index)
    (hleast : ∀ earlier < index, ¬ Row.RangeContains address table.trace.rows earlier) :
    (table.findAddress address).2 = .ok (some row) := by
  rw [findAddress_answer, Row.firstCovering?_of_least hrow hin hleast]

theorem findAddress_of_missed {table : LineTable} {address : UInt64}
    (hnone : ∀ index, ¬ Row.RangeContains address table.trace.rows index) :
    (table.findAddress address).2 = table.trace.missed := by
  rw [findAddress_answer, Row.firstCovering?_of_none hnone, Trace.missed]
  cases table.trace.fault <;> rfl

/-- Whatever was done with a table before, a search finds the row with the least index whose range
contains the address. Where there is none it gives the fault of a fresh pass, if that has one. The
rows and the fault are those of the table at the beginning. -/
theorem findAddress_of_rows (table : LineTable) (operations : List Operation)
    {current : LineTable}
    (hcurrent : ((Session.ofTable table).performAll operations).shared = some current)
    (address : UInt64) :
    let rows := current.trace.rows
    rows = table.trace.rows ∧ current.trace.fault = table.trace.fault ∧
    (∀ index row, rows[index]? = some row → Row.RangeContains address rows index →
      (∀ earlier < index, ¬ Row.RangeContains address rows earlier) →
      (current.findAddress address).2 = .ok (some row)) ∧
    ((∀ index, ¬ Row.RangeContains address rows index) →
      (∀ e, current.trace.fault = some e → (current.findAddress address).2 = .error e) ∧
      (current.trace.fault = none → (current.findAddress address).2 = .ok none)) ∧
    current.findAddress address = current.seek address := by
  obtain ⟨reached, hextends⟩ := Session.exists_extends hcurrent
  obtain ⟨hrows, hfault⟩ := Trace.eq_of_answers_eq hextends.answers_eq
  intro rows
  refine ⟨hrows, hfault, ?_, ?_, current.findAddress_eq_seek address⟩
  · intro index row hrow hin hleast
    exact findAddress_of_least hrow hin hleast
  · intro hnone
    have hmissed := findAddress_of_missed hnone
    constructor
    · intro e he
      rw [hmissed, Trace.missed, he]
    · intro hplain
      rw [hmissed, Trace.missed, hplain]

/-- Two rows and then an instruction that is cut off. The address between the rows is found, and
one behind them meets the fault. -/
theorem findAddress_before_fault :
    ∃ table current, parse .little
        [26, 0, 0, 0, 2, 0, 15, 0, 0, 0, 1, 1, 0, 1, 4, 0, 1, 1, 0, 97, 0, 0, 0, 0, 0,
          1, 2, 4, 1, 2] 0 { addressSize := 4, compDir := "/", name := "u" } = .ok table ∧
      ((Session.ofTable table).performAll [.rows]).shared = some current ∧
      (∃ row, current.trace.rows[0]? = some row ∧
        (current.findAddress 2).2 = .ok (some row)) ∧
      (current.findAddress 9).2 = .error (.read .unexpectedEnd) := by
  have hknown : (parse .little
        [26, 0, 0, 0, 2, 0, 15, 0, 0, 0, 1, 1, 0, 1, 4, 0, 1, 1, 0, 97, 0, 0, 0, 0, 0,
          1, 2, 4, 1, 2] 0 { addressSize := 4, compDir := "/", name := "u" }).map (fun table =>
      decide ((table.trace.rows.map fun row => (row.registers.address, row.registers.endSequence)) =
          [(0, false), (4, false)] ∧
        table.trace.fault = some (.read .unexpectedEnd))) = .ok true := by
    decide +kernel
  obtain ⟨table, hparse, hfacts⟩ := exists_of_map_eq_ok hknown
  obtain ⟨haddresses, hfault⟩ := of_decide_eq_true hfacts
  have hcurrent : ((Session.ofTable table).performAll [.rows]).shared =
    some { table with files := table.trace.files } := rfl
  obtain ⟨hrows, hsame, hfound, -⟩ := findAddress_of_rows table [.rows] hcurrent 2
  obtain ⟨-, -, -, hmissed, -⟩ := findAddress_of_rows table [.rows] hcurrent 9
  rw [hrows] at hfound hmissed
  refine ⟨table, _, hparse, hcurrent, ?_, ?_⟩
  · rw [hrows]
    obtain ⟨first, rest, hsplit, hfirst, hrest⟩ := List.map_eq_cons_iff.mp haddresses
    obtain ⟨second, _, rfl, hsecond, -⟩ := List.map_eq_cons_iff.mp hrest
    rw [hsplit] at hfound ⊢
    refine ⟨first, rfl, hfound 0 first rfl ?_ (by simp)⟩
    simp only [Prod.mk.injEq] at hfirst hsecond
    rw [Row.rangeContains_zero, Row.covers_iff, hfirst.1, hfirst.2, hsecond.1]
    decide
  · refine (hmissed ?_).1 _ (hsame.trans hfault)
    rintro index ⟨row, next, -, hnext, -, hlt, -⟩
    have hbelow : ∀ row ∈ table.trace.rows, row.registers.address ≤ 4 := by
      intro row hrow
      have hmem := List.mem_map_of_mem
        (f := fun row : Row => (row.registers.address, row.registers.endSequence)) hrow
      rw [haddresses] at hmem
      simp only [List.mem_cons, Prod.mk.injEq, List.not_mem_nil, or_false] at hmem
      rcases hmem with ⟨h, -⟩ | ⟨h, -⟩ <;> rw [h] <;> decide
    have hle := hbelow next (List.mem_of_getElem? hnext)
    exact absurd (UInt64.lt_of_lt_of_le hlt hle) (by decide)

end LineTable
end DwarfLines
