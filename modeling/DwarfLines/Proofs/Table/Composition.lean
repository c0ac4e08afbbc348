import Mathlib
import DwarfLines.Proofs.Header.ReplacedPrograms
import DwarfLines.Proofs.Machine.Relocation
import DwarfLines.Proofs.Table.Completeness
import DwarfLines.Proofs.Table.Sequences
import DwarfLines.Proofs.Table.Truncation

/-!
# Programs that follow each other

A program that ends with the end of a sequence leaves the registers as every program finds them, so
a program that is put behind it gives the rows that it gives alone, and a search goes through the
rows of the one and then of the other. Only the files are not the same: what the first program
declares comes before what the second one declares, and the rows of the second are resolved among
all of them.
-/

namespace DwarfLines

namespace MachineState

variable {parameters : Parameters} {state next : MachineState}

/-- What is left after an instruction or a run: only a row shows the end of a sequence, and the
registers after such a row are those of the beginning. -/
structure ResetsAfter (parameters : Parameters) (next : MachineState) (row : Option Registers) :
    Prop where
  endSequence : next.registers.endSequence = false
  registers : ∀ shown, row = some shown → shown.endSequence = true →
    next.registers = .initial parameters.defaultIsStmt

theorem resetsAfter_none (h : next.registers.endSequence = false) :
    ResetsAfter parameters next none := by
  refine ⟨h, fun _ hrow => ?_⟩
  cases hrow

theorem resetsAfter_emit {shown : Registers} (h : shown.endSequence = false) :
    ResetsAfter parameters (state.emit shown).1 (state.emit shown).2 := by
  refine ⟨h, fun other hrow hends => ?_⟩
  cases hrow
  rw [h] at hends
  cases hends

theorem execute_resetsAfter {instruction : Instruction} {row : Option Registers}
    {start finish : ℕ} (h : state.execute parameters start finish instruction = .ok (next, row))
    (hregisters : state.registers.endSequence = false) : ResetsAfter parameters next row := by
  cases instruction with
  | special opcode =>
    simp only [execute] at h
    split at h
    · cases h
    · cases h
      exact resetsAfter_emit hregisters
  | copy =>
    cases h
    exact resetsAfter_emit hregisters
  | endSequence =>
    cases h
    exact ⟨rfl, fun _ _ _ => rfl⟩
  | defineFile record =>
    simp only [execute] at h
    split_ifs at h
    · cases h
      exact resetsAfter_none hregisters
    · obtain ⟨files, -, h⟩ := exists_of_bind_eq_ok h
      cases h
      exact resetsAfter_none hregisters
  | _ =>
    cases h
    exact resetsAfter_none hregisters

theorem step_resetsAfter {c last : Cursor} {row : Option Registers}
    (h : step parameters state c = (next, .ok (row, last)))
    (hregisters : state.registers.endSequence = false) : ResetsAfter parameters next row := by
  obtain ⟨decoded, operandsEnd, -, hexecute, -⟩ := (step_eq_ok parameters).mp h
  exact execute_resetsAfter hexecute hregisters

theorem run_resetsAfter {c last : Cursor} {row : Option Registers}
    (h : run parameters state c = (next, .ok (row, last)))
    (hregisters : state.registers.endSequence = false) : ResetsAfter parameters next row := by
  fun_induction run parameters state c with
  | case1 state c hend =>
    cases h
    exact resetsAfter_none hregisters
  | case2 state c hend after e hstep => cases h
  | case3 state c hend after shown place hstep =>
    cases h
    exact step_resetsAfter hstep hregisters
  | case4 state c hend after place hstep hlt ih =>
    exact ih h (step_resetsAfter hstep hregisters).endSequence

end MachineState

def Trace.registers (trace : Trace) : List Registers := trace.rows.map (·.registers)

namespace Pass

variable {program whole : LineProgram} {files other : FileTable} {pass : Pass}

theorem trace_of_no_row (hrows : (pass.trace program files).moments = [])
    (hfault : (pass.trace program files).fault = none) :
    (pass.trace program files).pass = pass := by
  rw [Pass.trace_eq] at hrows hfault ⊢
  rcases hanswer : (next program files pass).answer with _ | e | row
  · rw [next_of_answer_none hanswer]
    rfl
  · simp [Advance.trace, hanswer] at hfault
  · simp [Advance.trace, hanswer] at hrows

/-- A pass whose last row ends a sequence is left with the registers of the beginning. -/
theorem registers_of_ending_trace {last : Row} (hfresh : pass.registers.endSequence = false)
    (hfault : (pass.trace program files).fault = none)
    (hlast : (pass.trace program files).rows.getLast? = some last)
    (hends : last.registers.endSequence = true) :
    (pass.trace program files).pass.registers = .initial program.header.defaultIsStmt := by
  fun_induction Pass.trace program files pass with
  | case1 => cases hlast
  | case2 => cases hlast
  | case3 files pass advance row hanswer hoffset rest ih =>
    obtain ⟨state, place, hgives⟩ := exists_givesRow hanswer
    have hresets := MachineState.run_resetsAfter hgives.run hfresh
    have hpass : advance.pass.registers = state.registers :=
      congrArg (·.pass.registers) hgives.next
    rcases hmoments : rest.moments with _ | ⟨moment, moments⟩
    · have hrow : row = last := by simpa [Trace.rows, hmoments] using hlast
      have hstays : rest.pass = advance.pass := trace_of_no_row hmoments hfault
      change rest.pass.registers = _
      rw [hstays, hpass, hresets.registers _ rfl (hrow ▸ hends)]
    · refine ih (hpass ▸ hresets.endSequence) hfault ?_
      have hmore : rest.rows = moment.row :: moments.map (·.row) :=
        congrArg (·.map (·.row)) hmoments
      change (row :: rest.rows).getLast? = some last at hlast
      rw [hmore, List.getLast?_cons_cons, ← hmore] at hlast
      exact hlast

/-- What is left of a program for a pass, found again at another place of another program, where the
pass goes on with a file table that serves there. -/
structure FoundAgain (program whole : LineProgram) (files other : FileTable) (pass : Pass)
    (start : ℕ) : Prop where
  parameters : whole.header.toParameters = program.header.toParameters
  size_lt : whole.size < 2 ^ 64
  bytes : program.bytes.drop pass.offset <+: whole.bytes.drop start
  start_le : start ≤ whole.size
  failed : pass.failed = false
  definedThrough_le : files.definedThrough ≤ pass.offset
  serves : other.Serves files start

theorem FoundAgain.givesRow {start last : ℕ} {row : Row} {state : MachineState}
    (h : FoundAgain program whole files other pass start)
    (hgives : GivesRow program files pass row state last) :
    ∃ file more, GivesRow whole other { registers := pass.registers, offset := start }
        { row with file } ⟨state.registers, more⟩ (start + (last - pass.offset)) ∧
      FoundAgain program whole (filesAfter state.files (program.cursorAt last))
        (filesAfter more (whole.cursorAt (start + (last - pass.offset))))
        { registers := state.registers, offset := last } (start + (last - pass.offset)) := by
  obtain ⟨taken, entries, hpasses, hgrew, hthere⟩ :=
    MachineState.run_elsewhere hgives.run h.definedThrough_le
  obtain ⟨-, -, -, hafter⟩ := MachineState.run_declares hgives.run h.definedThrough_le
  obtain ⟨rest, hrest⟩ := h.bytes
  have hlast : last = pass.offset + taken.length := hpasses.offset
  have hlength : last - pass.offset = taken.length := by omega
  have hbytes : whole.bytes.drop start = taken ++ (program.bytes.drop last ++ rest) := by
    rw [← hrest, ← List.append_assoc]
    exact congrArg (· ++ rest) hpasses.rest
  have hbehind : whole.bytes.drop (start + taken.length) = program.bytes.drop last ++ rest := by
    rw [← List.drop_drop, hbytes, List.drop_left]
  have hle : start + taken.length ≤ whole.size := by
    have hsize := congrArg List.length hbytes
    have hstart := h.start_le
    rw [List.length_drop, List.length_append] at hsize
    rw [LineProgram.size] at hstart ⊢
    omega
  obtain ⟨more, hadded, hmoreThrough, hrun⟩ :=
    hthere other start _ h.serves.toTakesAlike (Nat.lt_of_le_of_lt hle h.size_lt)
  have hmore := h.serves.grow hgrew hadded hmoreThrough
  rw [← hbytes, ← hbehind] at hrun
  obtain ⟨file, hfile⟩ := hmore.exists_file? hgives.file
  rw [hlength]
  refine ⟨file, more, ⟨rfl, h.start_le, ?_, hfile⟩, ?_⟩
  · rw [h.parameters]
    exact hrun
  · have hthrough := (filesAfter_agrees state.files (program.cursorAt last)).definedThrough
    exact ⟨h.parameters, h.size_lt, hbehind ▸ List.prefix_append _ _, hle, rfl,
      hthrough.trans_le hafter,
      (hmore.of_agrees (filesAfter_agrees _ _)).of_covers (filesAfter_agrees _ _).symm.covers⟩

/-- A trace that runs through is found again at the beginning of another one, which then goes on
with the registers and behind the bytes that the first one leaves. -/
theorem FoundAgain.trace {start : ℕ} (h : FoundAgain program whole files other pass start)
    (hfault : (pass.trace program files).fault = none) :
    ∃ more, more.Serves (pass.trace program files).files (start + (program.size - pass.offset)) ∧
      let found := ({ registers := pass.registers, offset := start } : Pass).trace whole other
      let later := ({ registers := (pass.trace program files).pass.registers
                      offset := start + (program.size - pass.offset) } : Pass).trace whole more
      found.registers = (pass.trace program files).registers ++ later.registers ∧
        found.fault = later.fault := by
  fun_induction Pass.trace program files pass generalizing other start with
  | case1 files pass advance =>
    rename_i hanswer
    have hnext : advance = { files, pass, answer := none } := next_of_answer_none hanswer
    have hfinished := isFinished_of_next hanswer
    rw [isFinished, h.failed, Bool.false_or, decide_eq_true_eq] at hfinished
    rw [hnext, Nat.sub_eq_zero_of_le hfinished]
    exact ⟨other, h.serves, rfl, rfl⟩
  | case2 files pass advance e => cases hfault
  | case3 files pass advance row hanswer hoffset =>
    rename_i rest ih
    obtain ⟨state, last, hgives⟩ := exists_givesRow hanswer
    obtain ⟨file, more, hagain, hfound⟩ := h.givesRow hgives
    have hfiles : advance.files = filesAfter state.files (program.cursorAt last) :=
      congrArg Advance.files hgives.next
    have hpass : advance.pass = { registers := state.registers, offset := last } :=
      congrArg Advance.pass hgives.next
    rw [← hfiles, ← hpass] at hfound
    obtain ⟨after, hafter, hregisters, hends⟩ := ih hfound hfault
    have hplace : start + (last - pass.offset) + (program.size - advance.pass.offset) =
        start + (program.size - pass.offset) := by
      obtain ⟨hlt, hle⟩ := hgives.offset_lt
      rw [hpass]
      dsimp only
      omega
    rw [hplace] at hafter hregisters hends
    rw [congrArg registers hpass] at hregisters hends
    refine ⟨after, hafter, ?_⟩
    dsimp only
    rw [hagain.trace_eq]
    exact ⟨congrArg (List.cons row.registers) hregisters, hends⟩

end Pass

theorem Row.firstCovering?_registers {address : UInt64} {rows others : List Row}
    (h : rows.map (·.registers) = others.map (·.registers)) :
    (firstCovering? address rows).map (·.registers) =
      (firstCovering? address others).map (·.registers) := by
  induction rows generalizing others with
  | nil =>
    obtain rfl := List.map_eq_nil_iff.mp h.symm
    rfl
  | cons row rows ih =>
    obtain ⟨other, others, rfl, hfirst, hrest⟩ := List.map_eq_cons_iff.mp h.symm
    cases rows with
    | nil =>
      obtain rfl := List.map_eq_nil_iff.mp hrest
      rfl
    | cons next rows =>
      obtain ⟨later, others, rfl, hnext, -⟩ := List.map_eq_cons_iff.mp hrest
      have hcovers : covers address row next = covers address other later := by
        simp only [covers, hfirst, hnext]
      simp only [firstCovering?, hcovers]
      split_ifs
      · exact congrArg some hfirst.symm
      · exact ih hrest.symm

namespace LineTable

variable {order : ByteOrder} {format : DwarfFormat} {context : UnitContext}
  {front first second : List UInt8} {head tail : LineTable}

theorem trace_covers (table : LineTable) : table.trace.files.Covers table.files :=
  table.trace_files_agrees.covers.trans (table.alone_covers (Nat.zero_le _))

/-- A table whose program is that of one table and then that of another, with what both have in
front of it. -/
structure Joins (whole head tail : LineTable) : Prop where
  sharesHead : whole.SharesFront head
  sharesTail : whole.SharesFront tail
  bytes : whole.program.bytes.drop whole.program.header.programOffset =
    head.program.bytes.drop head.program.header.programOffset ++
      tail.program.bytes.drop tail.program.header.programOffset

variable {whole : LineTable}

theorem Joins.seam (h : whole.Joins head tail) (hhead : head.program.Accepted)
    (hwhole : whole.program.Accepted) :
    whole.program.bytes.drop head.size =
        tail.program.bytes.drop tail.program.header.programOffset ∧
      head.size ≤ whole.size ∧
      head.size + (tail.size - tail.program.header.programOffset) = whole.size := by
  have hle := hhead.programOffset_le
  have hwholeLe := hwhole.programOffset_le
  have hlength := congrArg List.length h.bytes
  rw [List.length_append, List.length_drop, List.length_drop, List.length_drop] at hlength
  rw [h.sharesHead.programOffset] at hlength hwholeLe
  have hdrop : whole.program.bytes.drop
      (head.program.header.programOffset + (head.size - head.program.header.programOffset)) =
        tail.program.bytes.drop tail.program.header.programOffset := by
    rw [← List.drop_drop, ← h.sharesHead.programOffset, h.bytes, h.sharesHead.programOffset, size,
      LineProgram.size, ← List.length_drop, List.drop_left]
  simp only [size, LineProgram.size] at hdrop ⊢
  rw [Nat.add_sub_cancel' hle] at hdrop
  refine ⟨hdrop, ?_, ?_⟩ <;> omega

theorem Joins.trace_head (h : whole.Joins head tail) (hhead : head.program.Accepted)
    (hwhole : whole.program.Accepted) (hfresh : whole.files.definedThrough = 0)
    (hfirst : head.trace.fault = none) :
    ∃ between, between.Serves head.trace.files head.size ∧
      let later := Pass.trace whole.program between
        { registers := head.trace.pass.registers, offset := head.size }
      whole.trace.registers = head.trace.registers ++ later.registers ∧
        whole.trace.fault = later.fault := by
  have hbegin (offset : ℕ) : whole.files.definedThrough ≤ offset :=
    hfresh.trans_le (Nat.zero_le offset)
  have hstart : Pass.FoundAgain head.program whole.program head.files whole.files
      (Pass.start head.program) whole.program.header.programOffset :=
    ⟨h.sharesHead.parameters, hwhole.length_lt, h.bytes ▸ List.prefix_append _ _,
      hwhole.programOffset_le, rfl, h.sharesHead.files ▸ hbegin _,
      h.sharesHead.files ▸ (FileTable.Covers.refl _).serves (hbegin _)⟩
  obtain ⟨between, hbetween, hregisters, hfault⟩ := hstart.trace hfirst
  have hmiddle : whole.program.header.programOffset +
      (head.program.size - (Pass.start head.program).offset) = head.size := by
    rw [h.sharesHead.programOffset]
    exact Nat.add_sub_cancel' hhead.programOffset_le
  rw [hmiddle] at hbetween hregisters hfault
  rw [h.sharesHead.start_registers] at hregisters hfault
  exact ⟨between, hbetween, hregisters, hfault⟩

/-- Behind the first program the rows of the second one are given, to a pass with the registers of
the beginning and with any file table that serves there. -/
theorem Joins.trace_tail (h : whole.Joins head tail) (hhead : head.program.Accepted)
    (hwhole : whole.program.Accepted) (hfresh : whole.files.definedThrough = 0)
    (hsecond : tail.trace.fault = none) {between : FileTable}
    (hserves : between.Serves tail.files head.size) :
    let later := Pass.trace whole.program between
      { registers := (Pass.start whole.program).registers, offset := head.size }
    later.registers = tail.trace.registers ∧ later.fault = none := by
  obtain ⟨hseam, hle, hend⟩ := h.seam hhead hwhole
  have hagain : Pass.FoundAgain tail.program whole.program tail.files between
      (Pass.start tail.program) head.size :=
    ⟨h.sharesTail.parameters, hwhole.length_lt, hseam ▸ List.prefix_rfl, hle, rfl,
      h.sharesTail.files ▸ hfresh.trans_le (Nat.zero_le _), hserves⟩
  obtain ⟨after, -, hregisters, hfault⟩ := hagain.trace hsecond
  replace hend : head.size + (tail.program.size - (Pass.start tail.program).offset) =
      whole.program.size := hend
  have hstill (registers : Registers) :
      Pass.trace whole.program after { registers, offset := whole.program.size } =
        { moments := [], files := after, pass := { registers, offset := whole.program.size }
          fault := none } := Pass.trace_of_isFinished le_rfl (by simp [Pass.isFinished]) _
  rw [hend, hstill, h.sharesTail.start_registers] at hregisters hfault
  exact ⟨hregisters.trans (List.append_nil _), hfault⟩

/-- The trace of a table with two programs, the first of which ends a sequence. -/
theorem Joins.trace (h : whole.Joins head tail) (hhead : head.program.Accepted)
    (hwhole : whole.program.Accepted) (hfresh : whole.files.definedThrough = 0)
    (hfirst : head.trace.fault = none) {last : Row}
    (hlast : head.trace.rows.getLast? = some last) (hends : last.registers.endSequence = true)
    (hsecond : tail.trace.fault = none) :
    whole.trace.registers = head.trace.registers ++ tail.trace.registers ∧
      whole.trace.fault = none := by
  obtain ⟨between, hbetween, hregisters, hfault⟩ := h.trace_head hhead hwhole hfresh hfirst
  have hreset : head.trace.pass.registers = (Pass.start whole.program).registers := by
    rw [← h.sharesHead.start_registers]
    exact Pass.registers_of_ending_trace rfl hfirst hlast hends
  have hcovers : head.trace.files.Covers tail.files := by
    rw [← h.sharesTail.files, h.sharesHead.files]
    exact head.trace_covers
  obtain ⟨hrows, hend⟩ := h.trace_tail hhead hwhole hfresh hsecond (hbetween.of_covers hcovers)
  rw [hreset] at hregisters hfault
  rw [hrows] at hregisters
  exact ⟨hregisters, hfault.trans hend⟩

theorem joins_of_parse
    (hhead : parse order (format.frame order (front ++ first)) 0 context = .ok head)
    (htail : parse order (format.frame order (front ++ second)) 0 context = .ok tail)
    (hwhole : parse order (format.frame order (front ++ (first ++ second))) 0 context = .ok whole)
    (hprogram : head.program.header.programOffset = format.lengthSize + front.length)
    (hfits : (front ++ (first ++ second)).length ≤ format.maxLength)
    (hfront : whole.SharesFront head) (htailFront : tail.SharesFront head) :
    whole.Joins head tail := by
  have hheadFits : (front ++ first).length ≤ format.maxLength := by
    simp only [List.length_append] at hfits ⊢
    omega
  have htailFits : (front ++ second).length ≤ format.maxLength := by
    simp only [List.length_append] at hfits ⊢
    omega
  have hdrop (program : List UInt8) :
      (format.frame order (front ++ program)).drop head.program.header.programOffset = program := by
    rw [hprogram, DwarfFormat.drop_frame, List.drop_left]
  refine ⟨hfront, ⟨?_, ?_, ?_⟩, ?_⟩
  · rw [hfront.parameters, htailFront.parameters]
  · rw [hfront.programOffset, htailFront.programOffset]
  · rw [hfront.files, htailFront.files]
  · rw [(header_of_unit hheadFits hhead).1, (header_of_unit htailFits htail).1,
      (header_of_unit hfits hwhole).1, hfront.programOffset, htailFront.programOffset, hdrop,
      hdrop, hdrop]

theorem findAddress_of_plain {table : LineTable} (h : table.trace.fault = none) (address : UInt64) :
    (table.findAddress address).2 = .ok (Row.firstCovering? address table.trace.rows) := by
  rw [findAddress_answer, h]
  cases Row.firstCovering? address table.trace.rows <;> rfl

/-- A program that ends a sequence, followed by another program: together they run through if each
of them does, they show the registers of the one and then those of the other, and a search finds
what it finds in the first, or else what it finds in the second. The unit with both programs must
still have a length that its format can write and that an offset can count. -/
theorem rows_of_appended_programs
    (hhead : parse order (format.frame order (front ++ first)) 0 context = .ok head)
    (htail : parse order (format.frame order (front ++ second)) 0 context = .ok tail)
    (hprogram : head.program.header.programOffset = format.lengthSize + front.length)
    (htables : head.program.tablesEnd ≤ head.program.header.programOffset)
    (hfits : (front ++ (first ++ second)).length ≤ format.maxLength)
    (hlength : (format.frame order (front ++ (first ++ second))).length < 2 ^ 64)
    (hfirst : head.trace.fault = none) {last : Row} (hlast : head.trace.rows.getLast? = some last)
    (hends : last.registers.endSequence = true) (hsecond : tail.trace.fault = none) :
    ∃ whole,
      parse order (format.frame order (front ++ (first ++ second))) 0 context = .ok whole ∧
      whole.trace.fault = none ∧
      whole.trace.registers = head.trace.registers ++ tail.trace.registers ∧
      ∀ address, ∃ inFirst inSecond found,
        (head.findAddress address).2 = .ok inFirst ∧
        (tail.findAddress address).2 = .ok inSecond ∧
        (whole.findAddress address).2 = .ok found ∧
        found.map (·.registers) = (inFirst.or inSecond).map (·.registers) := by
  have hlengths : (front ++ (first ++ second)).length =
      front.length + first.length + second.length := by
    rw [List.length_append, List.length_append, Nat.add_assoc]
  have hheadFits : (front ++ first).length ≤ format.maxLength := by
    rw [List.length_append]
    omega
  have htailFits : (front ++ second).length ≤ format.maxLength := by
    rw [List.length_append]
    omega
  have htailLength : (format.frame order (front ++ second)).length < 2 ^ 64 := by
    rw [DwarfFormat.length_frame, List.length_append]
    rw [DwarfFormat.length_frame] at hlength
    omega
  obtain ⟨whole, hwhole, hfront⟩ := parse_front hhead hprogram htables hheadFits hfits hlength
  obtain ⟨other, hother, htailFront⟩ :=
    parse_front hhead hprogram htables hheadFits htailFits htailLength
  obtain rfl := Except.ok.inj (htail.symm.trans hother)
  have hjoins := joins_of_parse hhead htail hwhole hprogram hfits hfront htailFront
  obtain ⟨hheadAccepted, -⟩ := fresh_of_parse hhead
  obtain ⟨hwholeAccepted, hfresh⟩ := fresh_of_parse hwhole
  obtain ⟨hregisters, hfault⟩ := hjoins.trace hheadAccepted hwholeAccepted
    hfresh.definedThrough hfirst hlast hends hsecond
  refine ⟨whole, hwhole, hfault, hregisters, fun address => ?_⟩
  refine ⟨_, _, _, findAddress_of_plain hfirst address, findAddress_of_plain hsecond address,
    findAddress_of_plain hfault address, ?_⟩
  have happend : (head.trace.rows ++ tail.trace.rows).map (·.registers) =
      head.trace.registers ++ tail.trace.registers := List.map_append
  rw [Row.firstCovering?_registers (hregisters.trans happend.symm), Row.firstCovering?_append]
  intro row hrow _
  rw [hlast] at hrow
  cases hrow
  exact hends

/-- Two programs that declare a file each and give rows for the addresses from 0 to 5 and from 16
to 21. -/
theorem rows_of_two_sequences :
    ∃ whole found, parse .little (DwarfFormat.dwarf32.frame .little
        ([2, 0, 8, 0, 0, 0, 1, 1, 0, 1, 2, 0, 0, 0] ++
          ([0, 6, 3, 97, 0, 0, 0, 0, 1, 7, 0, 1, 1] ++
            [0, 6, 3, 98, 0, 0, 0, 0, 0, 9, 2, 16, 0, 0, 0, 0, 0, 0, 0, 1, 7, 0, 1, 1]))) 0
          { compDir := "/", name := "u" } = .ok whole ∧
      whole.trace.fault = none ∧
      whole.trace.registers.map (·.address) = [0, 5, 5, 16, 21, 21] ∧
      (whole.findAddress 17).2 = .ok (some found) ∧ found.registers.address = 16 := by
  have hfirst : (parse .little (DwarfFormat.dwarf32.frame .little
      ([2, 0, 8, 0, 0, 0, 1, 1, 0, 1, 2, 0, 0, 0] ++
        [0, 6, 3, 97, 0, 0, 0, 0, 1, 7, 0, 1, 1])) 0 { compDir := "/", name := "u" }).map
        (fun table => (
          decide (table.program.header.programOffset = 18 ∧ table.program.tablesEnd = 18),
          table.trace.fault, table.trace.registers.map (·.address),
          table.trace.rows.getLast?.any (·.registers.endSequence),
          (table.findAddress 17).2.toOption == some none)) =
      .ok (true, none, [0, 5, 5], true, true) := by
    decide +kernel
  have hsecond : (parse .little (DwarfFormat.dwarf32.frame .little
      ([2, 0, 8, 0, 0, 0, 1, 1, 0, 1, 2, 0, 0, 0] ++
        [0, 6, 3, 98, 0, 0, 0, 0, 0, 9, 2, 16, 0, 0, 0, 0, 0, 0, 0, 1, 7, 0, 1, 1])) 0
        { compDir := "/", name := "u" }).map
        (fun table => (table.trace.fault, table.trace.registers.map (·.address),
          (table.findAddress 17).2.toOption.map (Option.map (·.registers.address)))) =
      .ok (none, [16, 21, 21], some (some 16)) := by
    decide +kernel
  obtain ⟨head, hhead, hfirst⟩ := exists_of_map_eq_ok hfirst
  obtain ⟨tail, htail, hsecond⟩ := exists_of_map_eq_ok hsecond
  simp only [Prod.mk.injEq, decide_eq_true_eq] at hfirst hsecond
  obtain ⟨⟨hprogram, htables⟩, hheadFault, hheadRows, hlast, hmiss⟩ := hfirst
  obtain ⟨htailFault, htailRows, hhit⟩ := hsecond
  obtain ⟨last, hlast, hends⟩ := (Option.any_eq_true _ _).mp hlast
  obtain ⟨whole, hwhole, hfault, hregisters, hfind⟩ := rows_of_appended_programs hhead htail
    hprogram (by omega) (by decide) (by decide) hheadFault hlast hends htailFault
  obtain ⟨inFirst, inSecond, found, hinFirst, hinSecond, hfound, hsame⟩ := hfind 17
  rw [hinFirst] at hmiss
  rw [hinSecond] at hhit
  obtain rfl : inFirst = none := by simpa [Except.toOption] using hmiss
  obtain ⟨row, rfl, hrow⟩ : ∃ row, inSecond = some row ∧ row.registers.address = 16 := by
    simpa [Except.toOption] using hhit
  obtain ⟨shown, rfl, hshown⟩ := Option.map_eq_some_iff.mp hsame
  refine ⟨whole, shown, hwhole, hfault, ?_, hfound, ?_⟩
  · rw [hregisters, List.map_append, hheadRows, htailRows]
    rfl
  · rw [hshown, hrow]

end LineTable
end DwarfLines
