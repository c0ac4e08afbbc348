import Mathlib
import DwarfLines.Proofs.Machine.Rewriting
import DwarfLines.Proofs.Table.Composition

/-!
# Passes over a program that was written anew

A pass over a program that was written anew gives the rows of the pass over the first program, with
the same registers and with files that correspond, and it fails if and only if the other one does.
That includes programs which were not changed at all, but stand behind another header.
-/

namespace DwarfLines

/-- The same registers in every row, with files that correspond, and an end of the same kind. -/
structure Trace.Alike (related : FileEntry → FileEntry → Prop) (trace other : Trace) : Prop where
  rows : List.Forall₂ (fun row copy => copy.registers = row.registers ∧ related row.file copy.file)
    trace.rows other.rows
  fault : other.fault = none ↔ trace.fault = none

theorem Trace.Alike.registers {related : FileEntry → FileEntry → Prop} {trace other : Trace}
    (h : trace.Alike related other) : other.registers = trace.registers := by
  have hmapped : List.Forall₂ (· = ·) (other.rows.map (·.registers))
      (trace.rows.map (·.registers)) := by
    rw [List.forall₂_map_left_iff, List.forall₂_map_right_iff]
    exact h.rows.flip.imp fun _ _ hrow => hrow.1
  exact List.forall₂_eq_eq_eq ▸ hmapped

theorem Trace.Alike.rows_eq {trace other : Trace} (h : trace.Alike (· = ·) other) :
    other.rows = trace.rows := by
  have hsame : List.Forall₂ (· = ·) other.rows trace.rows := by
    refine h.rows.flip.imp fun copy row hrow => ?_
    obtain ⟨registers, file⟩ := copy
    obtain ⟨rfl, rfl⟩ := hrow
    rfl
  exact List.forall₂_eq_eq_eq ▸ hsame

theorem FileTable.file?_related {related : FileEntry → FileEntry → Prop} {table other : FileTable}
    (h : List.Forall₂ related table.files other.files) (index : UInt64) :
    Option.Rel related (table.file? index) (other.file? index) := by
  unfold FileTable.file?
  by_cases hlt : index.toNat < table.files.length
  · have hother : index.toNat < other.files.length := h.length_eq ▸ hlt
    rw [List.getElem?_eq_getElem hlt, List.getElem?_eq_getElem hother]
    exact .some (h.get hlt hother)
  · have hother : ¬ index.toNat < other.files.length := h.length_eq ▸ hlt
    rw [List.getElem?_eq_none (Nat.not_lt.mp hlt), List.getElem?_eq_none (Nat.not_lt.mp hother)]
    exact .none

namespace Pass

open MachineState (Faithful Rewritten RunsAlike)

variable {write : ℕ → Instruction → List UInt8 → List UInt8}
  {related : FileEntry → FileEntry → Prop} {program whole : LineProgram} {files other : FileTable}
  {pass : Pass} {start : ℕ}

/-- What is left of a program for a pass, written anew at a place of another program. -/
structure FoundAnew (write : ℕ → Instruction → List UInt8 → List UInt8)
    (related : FileEntry → FileEntry → Prop) (program whole : LineProgram)
    (files other : FileTable) (pass : Pass) (start : ℕ) : Prop where
  parameters : whole.header.toParameters = program.header.toParameters
  failed : pass.failed = false
  offset_le : pass.offset ≤ program.size
  start_le : start ≤ whole.size
  rewritten : Rewritten program.header.toParameters write related ⟨pass.registers, files⟩
    ⟨pass.registers, other⟩ (program.cursorAt pass.offset) (whole.cursorAt start)

theorem rewritten_filesAfter {parameters : Parameters} {state next : MachineState}
    {c place last finish : Cursor} (h : Rewritten parameters write related state next c place) :
    Rewritten parameters write related ⟨state.registers, filesAfter state.files last⟩
      ⟨state.registers, filesAfter next.files finish⟩ c place := by
  have hown := filesAfter_agrees state.files last
  have hother := filesAfter_agrees next.files finish
  have hsame : MachineState.Agrees ⟨state.registers, filesAfter state.files last⟩ state :=
    ⟨rfl, hown⟩
  refine ⟨rfl, ⟨?_, ?_, ?_⟩, ?_, ?_, ?_, h.length_lt, h.place_length_lt⟩
  · exact hother.compDir.trans (h.takesAlike.compDir.trans hown.compDir.symm)
  · exact hother.directories.trans (h.takesAlike.directories.trans hown.directories.symm)
  · exact hother.definedThrough.trans_le h.takesAlike.definedThrough_le
  · exact hown.definedThrough.trans_le h.definedThrough_le
  · rw [hown.files, hother.files]
    exact h.files
  · rw [MachineState.rewrite_agrees hsame]
    exact h.rest

theorem conclude_of_no_row (pass : Pass)
    {result : MachineState × Except LineError (Option Registers × Cursor)}
    (h : ∀ shown last, result.2 ≠ .ok (some shown, last)) :
    ∃ e, (pass.conclude result).answer = some (.error e) := by
  rcases result with ⟨state, e | ⟨row | row, last⟩⟩
  · exact ⟨e, rfl⟩
  · exact ⟨_, rfl⟩
  · exact absurd rfl (h row last)

/-- A request is given nothing on both sides, or a failure, or a row that shows the same. -/
theorem FoundAnew.next (h : FoundAnew write related program whole files other pass start)
    (hwrite : Faithful program.header.toParameters write)
    (hrelated : ∀ entry, related entry entry) :
    let own := next program files pass
    let copy := next whole other { registers := pass.registers, offset := start }
    (own.answer = none ∧ copy.answer = none) ∨
      (∃ e later, own.answer = some (.error e) ∧ copy.answer = some (.error later)) ∨
      ∃ row file place, own.answer = some (.ok row) ∧
        copy.answer = some (.ok { row with file }) ∧ related row.file file ∧
        copy.pass = { registers := own.pass.registers, offset := place } ∧
        FoundAnew write related program whole own.files copy.files own.pass place := by
  dsimp only
  have hends := h.rewritten.atEnd_iff hwrite hrelated
  by_cases hend : (program.cursorAt pass.offset).atEnd = true
  · left
    rw [next_of_end (program.at?_of_le h.offset_le) hend,
      next_of_end (whole.at?_of_le h.start_le) (hends.trans hend)]
    exact ⟨rfl, rfl⟩
  · replace hend := Bool.eq_false_iff.mpr hend
    rw [next_of_place h.failed (program.at?_of_le h.offset_le) hend,
      next_of_place rfl (whole.at?_of_le h.start_le) (hends.trans hend), h.parameters]
    right
    have hruns := h.rewritten.run hwrite hrelated
    generalize hown : MachineState.run program.header.toParameters ⟨pass.registers, files⟩
      (program.cursorAt pass.offset) = run at hruns ⊢
    generalize hcopy : MachineState.run program.header.toParameters ⟨pass.registers, other⟩
      (whole.cursorAt start) = again at hruns ⊢
    cases hruns with
    | stop hrun hother =>
      obtain ⟨e, he⟩ := conclude_of_no_row pass hrun
      obtain ⟨later, hlater⟩ :=
        conclude_of_no_row { registers := pass.registers, offset := start } hother
      exact .inl ⟨e, later, he, hlater⟩
    | @row next after shown last finish hfiles hgoes =>
      rw [conclude, conclude]
      have hrelation := FileTable.file?_related hfiles shown.fileIndex
      generalize hknown : next.files.file? shown.fileIndex = known at hrelation
      generalize hfound : after.files.file? shown.fileIndex = found at hrelation
      cases hrelation with
      | none =>
        rw [finishRow_of_none _ hknown, finishRow_of_none _ hfound]
        exact .inl ⟨_, _, rfl, rfl⟩
      | @some file copy hrelation =>
        rw [finishRow_of_some _ hknown, finishRow_of_some _ hfound]
        have hlast := (MachineState.run_lt hown).1
        have hfinish := (MachineState.run_lt hcopy).1
        have hgoes := hgoes (by simp [MachineState.knowsFile, hknown])
        rw [program.eq_cursorAt hlast, whole.eq_cursorAt hfinish] at hgoes
        have hregisters := hgoes.registers
        refine .inr ⟨_, copy, finish.offset, rfl, rfl, hrelation, ?_, h.parameters, rfl,
          program.offset_le_size hlast h.offset_le, whole.offset_le_size hfinish h.start_le,
          rewritten_filesAfter hgoes⟩
        rw [hregisters]

/-- A pass over what was written anew gives the same rows and ends alike. -/
theorem FoundAnew.trace (h : FoundAnew write related program whole files other pass start)
    (hwrite : Faithful program.header.toParameters write)
    (hrelated : ∀ entry, related entry entry) :
    (pass.trace program files).Alike related
      (({ registers := pass.registers, offset := start } : Pass).trace whole other) := by
  induction hleft : program.size - pass.offset using Nat.strong_induction_on
    generalizing files other pass start with
  | _ left ih =>
    have hnext := h.next hwrite hrelated
    rw [Pass.trace_eq, Pass.trace_eq]
    rcases hnext with ⟨hown, hcopy⟩ | ⟨e, later, hown, hcopy⟩ |
      ⟨row, file, place, hown, hcopy, hrelation, hpass, hfound⟩
    · simp only [Advance.trace, hown, hcopy]
      exact ⟨.nil, Iff.rfl⟩
    · simp only [Advance.trace, hown, hcopy]
      exact ⟨.nil, by simp⟩
    · simp only [Advance.trace, hown, hcopy, hpass]
      have hoffset := next_offset hown
      have hrest := ih _ (by omega) hfound rfl
      exact ⟨.cons ⟨rfl, hrelation⟩ hrest.rows, hrest.fault⟩

end Pass

namespace LineTable

open MachineState (Faithful)

variable {order otherOrder : ByteOrder} {lines otherLines : List UInt8} {offset otherOffset : ℕ}
  {context otherContext : UnitContext} {table other : LineTable}
  {write : ℕ → Instruction → List UInt8 → List UInt8} {related : FileEntry → FileEntry → Prop}

/-- The program of a table, written anew as far as a pass executes it. -/
def rewritten (table : LineTable) (write : ℕ → Instruction → List UInt8 → List UInt8) :
    List UInt8 :=
  MachineState.rewrite table.program.header.toParameters write
    ⟨(Pass.start table.program).registers, table.files⟩
    (table.program.cursorAt table.program.header.programOffset)

theorem rewritten_verbatim (table : LineTable) :
    table.rewritten MachineState.verbatim =
      table.program.bytes.drop table.program.header.programOffset :=
  MachineState.rewrite_verbatim _ _

theorem foundAnew_start (hparse : parse order lines offset context = .ok table)
    (hother : parse otherOrder otherLines otherOffset otherContext = .ok other)
    (hparameters : other.program.header.toParameters = table.program.header.toParameters)
    (hcompDir : other.files.compDir = table.files.compDir)
    (hdirectories : other.files.directories = table.files.directories)
    (hfiles : List.Forall₂ related table.files.files other.files.files)
    (hprogram : other.program.bytes.drop other.program.header.programOffset =
      table.rewritten write) :
    Pass.FoundAnew write related table.program other.program table.files other.files
      (Pass.start table.program) other.program.header.programOffset ∧
    (Pass.start other.program).registers = (Pass.start table.program).registers := by
  obtain ⟨hown, hfresh⟩ := accepted_of_parse hparse
  obtain ⟨hcopy, hotherFresh⟩ := accepted_of_parse hother
  have hlength (program : LineProgram) (h : program.Accepted) :
      (program.cursorAt program.header.programOffset).offset +
        (program.cursorAt program.header.programOffset).rest.length < 2 ^ 64 := by
    have hle := h.programOffset_le
    have hlt := h.length_lt
    simp only [LineProgram.cursorAt, List.length_drop]
    omega
  constructor
  · refine ⟨hparameters, rfl, hown.programOffset_le, hcopy.programOffset_le, rfl, ?_, ?_, hfiles,
      hprogram, hlength _ hown, hlength _ hcopy⟩
    · exact ⟨hcompDir, hdirectories, hotherFresh.trans_le (Nat.zero_le _)⟩
    · exact hfresh.trans_le (Nat.zero_le _)
  · exact congrArg (fun parameters : Parameters => Registers.initial parameters.defaultIsStmt)
      hparameters

theorem trace_alike (hparse : parse order lines offset context = .ok table)
    (hother : parse otherOrder otherLines otherOffset otherContext = .ok other)
    (hparameters : other.program.header.toParameters = table.program.header.toParameters)
    (hcompDir : other.files.compDir = table.files.compDir)
    (hdirectories : other.files.directories = table.files.directories)
    (hfiles : List.Forall₂ related table.files.files other.files.files)
    (hprogram : other.program.bytes.drop other.program.header.programOffset =
      table.rewritten write)
    (hwrite : Faithful table.program.header.toParameters write)
    (hrelated : ∀ entry, related entry entry) : table.trace.Alike related other.trace := by
  obtain ⟨hstart, hregisters⟩ :=
    foundAnew_start hparse hother hparameters hcompDir hdirectories hfiles hprogram
  have htrace := hstart.trace hwrite hrelated
  rw [← hregisters] at htrace
  exact htrace

/-- A unit whose lists end where its program begins or before is accepted with the program written
anew, if it still has a length that can be written. -/
theorem parse_rewritten (hparse : parse order lines offset context = .ok table)
    (hends : table.program.tablesEnd ≤ table.program.header.programOffset)
    (hfits : table.program.header.programOffset + (table.rewritten write).length ≤
      table.program.header.format.lengthSize + table.program.header.format.maxLength)
    (hlength : table.program.header.programOffset + (table.rewritten write).length < 2 ^ 64)
    (before after : List UInt8) :
    ∃ other, parse order (before ++ table.program.replaced (table.rewritten write) ++ after)
        before.length context = .ok other ∧
      other.SharesFront table ∧
      other.program.bytes.drop other.program.header.programOffset = table.rewritten write :=
  parse_replaced hparse hends hfits hlength before after

theorem exists_rewritten (hparse : parse order lines offset context = .ok table)
    (hends : table.program.tablesEnd ≤ table.program.header.programOffset)
    (hwrite : Faithful table.program.header.toParameters write)
    (hfits : table.program.header.programOffset + (table.rewritten write).length ≤
      table.program.header.format.lengthSize + table.program.header.format.maxLength)
    (hlength : table.program.header.programOffset + (table.rewritten write).length < 2 ^ 64)
    (before after : List UInt8) :
    ∃ other, parse order (before ++ table.program.replaced (table.rewritten write) ++ after)
        before.length context = .ok other ∧
      other.SharesFront table ∧ table.trace.Alike (· = ·) other.trace := by
  obtain ⟨other, hother, hfront, hprogram⟩ :=
    parse_rewritten hparse hends hfits hlength before after
  exact ⟨other, hother, hfront, trace_alike hparse hother hfront.parameters
    (congrArg _ hfront.files) (congrArg _ hfront.files)
    (hfront.files ▸ List.forall₂_same.mpr fun _ _ => rfl) hprogram hwrite fun _ => rfl⟩

end LineTable
end DwarfLines
