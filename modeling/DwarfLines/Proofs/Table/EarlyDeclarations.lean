import Mathlib
import DwarfLines.Proofs.Table.LeftFiles
import DwarfLines.Proofs.Table.ListedRecords
import DwarfLines.Proofs.Table.LongForms

/-!
# Files declared in the header or by the first instruction

Before version 5 a file can be declared in the header's list or in the program. A record at the end
of the list and an instruction with the same operands in front of the program come to the same rows
and the same kind of end. They come to the same files, too, as long as the length of a later
declaration, which stands a few bytes further behind in the second case, does not come to lead out
of all offsets there.
-/

namespace DwarfLines

theorem Utf8.decode_ne_empty {bytes : List UInt8} (h : bytes ≠ []) : decode bytes ≠ "" := by
  cases bytes with
  | nil => exact absurd rfl h
  | cons b rest => simp [decode, decodeChars]

/-- A file record as it stands in a unit: a name of any bytes but zero, and three numbers. -/
structure RecordBytes where
  name : List UInt8
  directoryIndex : UInt64
  timestamp : UInt64
  size : UInt64
  name_ne_nil : name ≠ []
  zero_not_mem : 0 ∉ name

namespace RecordBytes

variable (declared : RecordBytes) (writing : NumberWriting)

def record : FileRecord where
  name := Utf8.decode declared.name
  directoryIndex := declared.directoryIndex
  timestamp := declared.timestamp
  size := declared.size

/-- The bytes of the record, in which each number may be written in a way of its own. -/
def operands : List UInt8 :=
  declared.name ++ [0] ++ (writing.unsigned 0 declared.directoryIndex ++
    (writing.unsigned 1 declared.timestamp ++ writing.unsigned 2 declared.size))

/-- `DW_LNE_define_file` with the record. -/
def instruction : List UInt8 :=
  0 :: writing.unsigned 3 (UInt64.ofNat (1 + (declared.operands writing).length)) ++
    ExtendedOpcode.defineFile.code :: declared.operands writing

theorem reads_fileDetails (offset : ℕ) :
    (LegacyLists.fileDetails (Utf8.decode declared.name)).Reads offset
      (writing.unsigned 0 declared.directoryIndex ++
        (writing.unsigned 1 declared.timestamp ++ writing.unsigned 2 declared.size))
      declared.record :=
  (writing.reads_unsigned _ _ _).bind
    ((writing.reads_unsigned _ _ _).bind ((writing.reads_unsigned _ _ _).bind_pure _))

theorem reads_fileRecord (offset : ℕ) :
    LegacyLists.fileRecord.Reads offset (declared.operands writing) (some declared.record) := by
  have hempty : ¬ declared.name.isEmpty = true := by simpa using declared.name_ne_nil
  apply (Reader.reads_terminated declared.zero_not_mem offset).bind
  rw [if_neg hempty]
  exact (declared.reads_fileDetails writing _).map some

theorem reads_readFileRecord (offset : ℕ) :
    Instruction.readFileRecord.Reads offset (declared.operands writing) declared.record :=
  (Reader.reads_terminated declared.zero_not_mem offset).bind
    (declared.reads_fileDetails writing _)

theorem length_operands_lt :
    (declared.operands writing).length < (declared.instruction writing).length := by
  simp only [instruction, List.length_append, List.length_cons]
  omega

variable {parameters : Parameters}

theorem readsAs_instruction (hbase : parameters.opcodeBase ≠ 0) {offset : ℕ}
    (hfit : offset + (declared.instruction writing).length < 2 ^ 64) :
    Decoded.ReadsAs parameters (.defineFile declared.record) offset
      (declared.instruction writing) := by
  have hread (start : ℕ) :
      (Instruction.readExtended parameters ExtendedOpcode.defineFile.code).Reads start
        (declared.operands writing) (.defineFile declared.record) :=
    (declared.reads_readFileRecord writing start).lift.bind_pure _
  have hless := declared.length_operands_lt writing
  have hlength : (UInt64.ofNat (1 + (declared.operands writing).length)).toNat =
      1 + (declared.operands writing).length + ([] : List UInt8).length := by
    rw [UInt64.toNat_ofNat']
    exact Nat.mod_eq_of_lt (by omega)
  rw [← List.append_nil (declared.instruction writing)] at hfit ⊢
  exact Decoded.readsAs_extended_of hbase (writing.reads_unsigned _ _) hread hlength hfit

theorem step_instruction (hbase : parameters.opcodeBase ≠ 0) (hversion : parameters.version < 5)
    {files : FileTable} {offset : ℕ} (hunseen : files.definedThrough ≤ offset)
    (hfit : offset + (declared.instruction writing).length < 2 ^ 64) (registers : Registers)
    (rest : List UInt8) :
    ∃ finish, finish ≤ offset + (declared.instruction writing).length ∧
      MachineState.step parameters ⟨registers, files⟩
          ⟨offset, declared.instruction writing ++ rest⟩ =
        (⟨registers, { files.append (files.recordEntry declared.record) with
            definedThrough := finish }⟩,
          .ok (none, ⟨offset + (declared.instruction writing).length, rest⟩)) := by
  obtain ⟨finish, -, hle, hstep⟩ := MachineState.step_of_readsAs
    (declared.readsAs_instruction writing hbase hfit) ⟨registers, files⟩ rest
  have hdeclared : (Instruction.defineFile declared.record).declared? parameters =
      some declared.record := if_neg (UInt16.not_le.mpr hversion)
  rw [MachineState.execute_declared parameters hdeclared, FileTable.define_of_le _ hunseen,
    files.entryOf_eq (Utf8.decode_ne_empty declared.name_ne_nil)] at hstep
  exact ⟨finish, hle, hstep⟩

end RecordBytes

namespace Pass

variable {program : LineProgram}

theorem trace_conclude (program : LineProgram) (pass other : Pass)
    (result : MachineState × Except LineError (Option Registers × Cursor)) :
    let own := (pass.conclude result).trace program
    let copy := (other.conclude result).trace program
    own.moments = copy.moments ∧ own.fault = copy.fault ∧ own.files = copy.files := by
  rcases result with ⟨state, e | ⟨row | row, last⟩⟩ <;> exact ⟨rfl, rfl, rfl⟩

variable {pass : Pass} {files after : FileTable} {registers : Registers} {place : ℕ}

/-- A pass at an instruction without a row comes to what a pass behind it comes to, unless the
program ends there. -/
theorem trace_of_silent (hfailed : pass.failed = false) (hle : pass.offset ≤ program.size)
    (hplace : place < program.size)
    (hstep : MachineState.step program.header.toParameters ⟨pass.registers, files⟩
      (program.cursorAt pass.offset) =
        (⟨registers, after⟩, .ok (none, program.cursorAt place))) :
    let own := pass.trace program files
    let copy := ({ registers, offset := place } : Pass).trace program after
    own.moments = copy.moments ∧ own.fault = copy.fault ∧ own.files = copy.files := by
  have hend := MachineState.not_atEnd_of_step hstep
  have hbehind : (program.cursorAt place).atEnd = false :=
    Bool.eq_false_iff.mpr fun h => Nat.not_le.mpr hplace (program.atEnd_cursorAt.mp h)
  dsimp only
  rw [Pass.trace_eq, Pass.trace_eq, next_of_place hfailed (program.at?_of_le hle) hend,
    next_of_place rfl (program.at?_of_le hplace.le) hbehind, MachineState.run_of_silent hend hstep]
  exact trace_conclude program pass _ _

/-- A pass at an instruction without a row makes the steps of a pass behind it. -/
theorem course_endOf_of_silent (hfailed : pass.failed = false) (hle : pass.offset ≤ program.size)
    (hplace : place < program.size)
    (hstep : MachineState.step program.header.toParameters ⟨pass.registers, files⟩
      (program.cursorAt pass.offset) =
        (⟨registers, after⟩, .ok (none, program.cursorAt place))) :
    (({ registers, offset := place } : Pass).course program after).EndOf
      (pass.course program files) := by
  obtain ⟨hmoments, hfault, hfiles⟩ := trace_of_silent hfailed hle hplace hstep
  constructor
  case steps =>
    rintro state c ⟨request, hrequest, hfresh, start, hat, hvisits⟩
    rcases List.mem_cons.mp hrequest with rfl | hlater
    · obtain ⟨-, rfl⟩ := Reader.at?_eq_ok.1 hat
      exact ⟨_, List.mem_cons_self .., hfailed, _, program.at?_of_le hle,
        .later (MachineState.not_atEnd_of_step hstep) hstep hvisits⟩
    · rw [← hmoments] at hlater
      exact ⟨request, List.mem_cons_of_mem _ hlater, hfresh, start, hat, hvisits⟩
  case files => exact congrArg FileTable.files hfiles
  case failed => exact fun e he => hfault.trans he

end Pass

namespace LineTable

variable {order : ByteOrder} {lines otherLines : List UInt8} {offset otherOffset : ℕ}
  {context : UnitContext} {table early late : LineTable}

/-- A table with a record in its list, and one without it whose program has the instruction in front
and is otherwise the same. -/
structure DeclaresEarly (declared : RecordBytes) (writing : NumberWriting)
    (early late : LineTable) : Prop where
  version : late.program.header.version < 5
  parameters : late.program.header.toParameters = early.program.header.toParameters
  files : early.files =
    { late.files with files := late.files.files ++ [late.files.recordEntry declared.record] }
  program : late.program.bytes.drop late.program.header.programOffset =
    declared.instruction writing ++ early.program.bytes.drop early.program.header.programOffset
  nonempty : early.program.header.programOffset < early.program.size

namespace DeclaresEarly

variable {declared : RecordBytes} {writing : NumberWriting}

theorem size_eq (h : early.DeclaresEarly declared writing late) :
    late.program.size = late.program.header.programOffset +
      (declared.instruction writing).length +
        (early.program.size - early.program.header.programOffset) := by
  have hlength := congrArg List.length h.program
  rw [List.length_drop, List.length_append, List.length_drop] at hlength
  change late.program.size - _ = _ + (early.program.size - _) at hlength
  have hnonempty := h.nonempty
  omega

theorem drop_instruction (h : early.DeclaresEarly declared writing late) :
    late.program.bytes.drop
        (late.program.header.programOffset + (declared.instruction writing).length) =
      early.program.bytes.drop early.program.header.programOffset := by
  rw [← List.drop_drop, h.program, List.drop_left]

theorem start_registers (h : early.DeclaresEarly declared writing late) :
    (Pass.start late.program).registers = (Pass.start early.program).registers :=
  congrArg (fun parameters : Parameters => Registers.initial parameters.defaultIsStmt) h.parameters

/-- Where the pass stands once it has executed the instruction in front, and what it has found. -/
theorem foundAnew (h : early.DeclaresEarly declared writing late)
    (hearly : parse order lines offset context = .ok early)
    (hlate : parse order otherLines otherOffset context = .ok late) :
    ∃ after place,
      Pass.FoundAnew MachineState.verbatim (· = ·) early.program late.program early.files after
        (Pass.start early.program) place ∧
      let copy : Pass := { registers := (Pass.start early.program).registers, offset := place }
      late.trace.rows = (copy.trace late.program after).rows ∧
        late.trace.fault = (copy.trace late.program after).fault ∧
        (copy.course late.program after).EndOf late.course := by
  obtain ⟨hown, hfresh⟩ := accepted_of_parse hearly
  obtain ⟨hcopy, hotherFresh⟩ := accepted_of_parse hlate
  have hplace : late.program.header.programOffset + (declared.instruction writing).length <
      late.program.size := by
    have hsize := h.size_eq
    have hnonempty := h.nonempty
    omega
  obtain ⟨finish, hfinish, hstep⟩ := declared.step_instruction writing hcopy.opcodeBase h.version
    (hotherFresh.trans_le (Nat.zero_le late.program.header.programOffset))
    (hplace.trans hcopy.length_lt) (Pass.start late.program).registers
    (early.program.bytes.drop early.program.header.programOffset)
  rw [← h.program, ← h.drop_instruction] at hstep
  obtain ⟨hmoments, hfault, -⟩ := Pass.trace_of_silent rfl hcopy.programOffset_le hplace hstep
  have hcourse := Pass.course_endOf_of_silent rfl hcopy.programOffset_le hplace hstep
  rw [h.start_registers] at hmoments hfault hcourse
  refine ⟨_, _, ⟨h.parameters, rfl, hown.programOffset_le, hplace.le, ?_⟩,
    congrArg (List.map _) hmoments, hfault, hcourse⟩
  -- The first program is left as it was, and the files are the same once the record was declared.
  constructor
  case registers => rfl
  case takesAlike =>
    rw [h.files]
    exact ⟨rfl, rfl, hfinish⟩
  case definedThrough_le => exact hfresh.trans_le (Nat.zero_le _)
  case files =>
    rw [h.files]
    exact List.forall₂_same.mpr fun _ _ => rfl
  case rest =>
    rw [MachineState.rewrite_verbatim]
    exact h.drop_instruction
  case length_lt =>
    exact (early.program.limit_cursorAt hown.programOffset_le).trans_lt hown.length_lt
  case place_length_lt =>
    exact (late.program.limit_cursorAt hplace.le).trans_lt hcopy.length_lt

end DeclaresEarly

/-- A record in the list of a unit and an instruction that declares it in front of the program give
the same rows, and the two units fail together. Their files are the same as well, unless both fail
at one declaration, where the unit with the record in its list has added the file when the declared
end is refused, and in the longer unit, the one with the instruction, the declared length leads out
of all offsets. The lists must end where a program begins that is not empty, or before, and the
longer unit must still have a length that its format can write and that an offset can count. -/
theorem rows_of_early_declaration (declared : RecordBytes) (writing : NumberWriting)
    (hparse : parse order lines offset context = .ok table)
    (hversion : table.program.header.version < 5)
    (hends : table.program.tablesEnd ≤ table.program.header.programOffset)
    (hprogram : table.program.header.programOffset < table.program.size)
    (hfits : table.program.size + (declared.instruction writing).length ≤
      table.program.header.format.lengthSize + table.program.header.format.maxLength)
    (hlength : table.program.size + (declared.instruction writing).length < 2 ^ 64)
    (before after : List UInt8) :
    ∃ early late,
      parse order (before ++ table.program.listed (declared.operands writing) ++ after)
        before.length context = .ok early ∧
      parse order
        (before ++ table.program.replaced (declared.instruction writing ++
          table.program.bytes.drop table.program.header.programOffset) ++ after)
        before.length context = .ok late ∧
      late.trace.rows = early.trace.rows ∧
      (late.trace.fault = none ↔ early.trace.fault = none) ∧
      (late.trace.files.files = early.trace.files.files ∨ ∃ entry,
        early.trace.files.files = late.trace.files.files ++ [entry] ∧
        RefusedApart early.program.header.toParameters early.course late.course entry) := by
  have hless := declared.length_operands_lt writing
  have hsize : table.program.header.programOffset + (declared.instruction writing ++
      table.program.bytes.drop table.program.header.programOffset).length =
      table.program.size + (declared.instruction writing).length := by
    rw [List.length_append, List.length_drop]
    change _ + (_ + (table.program.size - _)) = _
    omega
  obtain ⟨early, hearly, hparameters, hearlySize, hrest, hfiles⟩ := parse_listed hparse hversion
    hends (Utf8.decode_ne_empty declared.name_ne_nil) (declared.reads_fileRecord writing) (by omega)
    (by omega) before after
  obtain ⟨late, hlate, hfront, hbytes⟩ := parse_replaced hparse hends (hsize.trans_le hfits)
    (hsize.trans_lt hlength) before after
  have hsame : early.program.size - early.program.header.programOffset =
      table.program.size - table.program.header.programOffset := by
    have hlength := congrArg List.length hrest
    rwa [List.length_drop, List.length_drop] at hlength
  have hdeclares : early.DeclaresEarly declared writing late := by
    constructor
    case version => exact (congrArg Parameters.version hfront.parameters).trans_lt hversion
    case parameters => exact hfront.parameters.trans hparameters.symm
    case files => exact hfront.files ▸ hfiles
    case program => exact hrest ▸ hbytes
    case nonempty => omega
  obtain ⟨found, place, hfound, hrows, hfault, hcourse⟩ := hdeclares.foundAnew hearly hlate
  have halike := hfound.trace MachineState.faithful_verbatim fun _ => rfl
  have hleaves := (hfound.trace_leaves MachineState.faithful_verbatim).mono (.refl _) hcourse
  refine ⟨early, late, hearly, hlate, hrows.trans halike.rows_eq, ?_, ?_⟩
  · rw [hfault]
    exact halike.fault
  · cases hleaves with
    | same h => exact .inl h
    | lost entry h hrefused => exact .inr ⟨entry, h, hrefused⟩
    | gained entry h hrefused =>
      -- Only the longer unit can lack a file, and that is the one with the instruction.
      have hlateSize := hdeclares.size_eq
      rw [hfront.programOffset] at hlateSize
      have hshorter := hrefused.size_lt
      omega

/-- The file that one unit lists and the other one declares first lies in a directory that does not
exist. A later declaration gives its file to the rows of both. -/
theorem rows_of_early_declaration_late_file :
    ∃ table early late, parse .little
        [31, 0, 0, 0, 2, 0, 11, 0, 0, 0, 1, 1, 0, 1, 5, 0, 1, 1, 1, 0, 0,
          0, 6, 3, 97, 0, 0, 0, 0, 4, 2, 1, 0, 1, 1] 0
        { compDir := "/", name := "u" } = .ok table ∧
      parse .little
        [36, 0, 0, 0, 2, 0, 16, 0, 0, 0, 1, 1, 0, 1, 5, 0, 1, 1, 1, 0, 98, 0, 9, 5, 0, 0,
          0, 6, 3, 97, 0, 0, 0, 0, 4, 2, 1, 0, 1, 1] 0
        { compDir := "/", name := "u" } = .ok early ∧
      parse .little
        [39, 0, 0, 0, 2, 0, 11, 0, 0, 0, 1, 1, 0, 1, 5, 0, 1, 1, 1, 0, 0,
          0, 6, 3, 98, 0, 9, 5, 0, 0, 6, 3, 97, 0, 0, 0, 0, 4, 2, 1, 0, 1, 1] 0
        { compDir := "/", name := "u" } = .ok late ∧
      early.trace.rows.map (·.file.path) = ["/a", "/a"] ∧
      late.trace.rows = early.trace.rows ∧ late.trace.fault = none ∧
      late.trace.files.files =
        [{ path := "/u", directoryIndex := 0 },
          { path := "/b", directoryIndex := 9, timestamp := some 5 },
          { path := "/a", directoryIndex := 0 }] := by
  have hknown : (parse .little
      [31, 0, 0, 0, 2, 0, 11, 0, 0, 0, 1, 1, 0, 1, 5, 0, 1, 1, 1, 0, 0,
        0, 6, 3, 97, 0, 0, 0, 0, 4, 2, 1, 0, 1, 1] 0 { compDir := "/", name := "u" }).map
        (fun table => decide (
          table.program.header.version < 5 ∧
          table.program.tablesEnd ≤ table.program.header.programOffset ∧
          table.program.header.programOffset < table.program.size ∧
          table.program.size = 35 ∧ table.program.header.format = .dwarf32 ∧
          table.program.listed
              (RecordBytes.operands ⟨[98], 9, 5, 0, by decide, by decide⟩ .shortest) =
            [36, 0, 0, 0, 2, 0, 16, 0, 0, 0, 1, 1, 0, 1, 5, 0, 1, 1, 1, 0, 98, 0, 9, 5, 0, 0,
              0, 6, 3, 97, 0, 0, 0, 0, 4, 2, 1, 0, 1, 1] ∧
          table.program.replaced
              (RecordBytes.instruction ⟨[98], 9, 5, 0, by decide, by decide⟩ .shortest ++
                table.program.bytes.drop table.program.header.programOffset) =
            [39, 0, 0, 0, 2, 0, 11, 0, 0, 0, 1, 1, 0, 1, 5, 0, 1, 1, 1, 0, 0,
              0, 6, 3, 98, 0, 9, 5, 0, 0, 6, 3, 97, 0, 0, 0, 0, 4, 2, 1, 0, 1, 1])) =
      .ok true := by
    decide +kernel
  have hfound : (parse .little
      [36, 0, 0, 0, 2, 0, 16, 0, 0, 0, 1, 1, 0, 1, 5, 0, 1, 1, 1, 0, 98, 0, 9, 5, 0, 0,
        0, 6, 3, 97, 0, 0, 0, 0, 4, 2, 1, 0, 1, 1] 0 { compDir := "/", name := "u" }).map
        (fun early => (early.trace.rows.map (·.file.path), early.trace.fault,
          early.trace.files.files)) =
      .ok (["/a", "/a"], none,
        [{ path := "/u", directoryIndex := 0 },
          { path := "/b", directoryIndex := 9, timestamp := some 5 },
          { path := "/a", directoryIndex := 0 }]) := by
    decide +kernel
  obtain ⟨table, hparse, hfacts⟩ := exists_of_map_eq_ok hknown
  obtain ⟨hversion, hends, hprogram, hsize, hformat, hlisted, hreplaced⟩ :=
    of_decide_eq_true hfacts
  obtain ⟨early, late, hearly, hlate, hrows, hfault, hfiles⟩ :=
    rows_of_early_declaration ⟨[98], 9, 5, 0, by decide, by decide⟩ .shortest hparse hversion
      hends hprogram (by rw [hsize, hformat]; decide +kernel) (by rw [hsize]; decide +kernel) [] []
  rw [List.nil_append, List.append_nil, hlisted] at hearly
  rw [List.nil_append, List.append_nil, hreplaced] at hlate
  obtain ⟨found, hagain, hshown⟩ := exists_of_map_eq_ok hfound
  cases hagain.symm.trans hearly
  simp only [Prod.mk.injEq] at hshown
  obtain ⟨hpaths, hnone, hleft⟩ := hshown
  have hplain := hfault.mpr hnone
  refine ⟨table, early, late, hparse, hearly, hlate, hpaths, hrows, hplain, ?_⟩
  rcases hfiles with hsame | ⟨entry, -, hrefused⟩
  · exact hsame.trans hleft
  · exact absurd hnone hrefused.failed

/-- A declaration that ends at the last offset that there is. It is refused because the unit ends
before, when its file is there. Behind the instruction that declares the other file its length is
refused, and the file is not there. -/
theorem files_of_early_declaration_differ :
    ∃ table early late, parse .little
        [31, 0, 0, 0, 2, 0, 8, 0, 0, 0, 1, 1, 0, 1, 2, 0, 0, 0,
          0, 221, 255, 255, 255, 255, 255, 255, 255, 255, 1, 3, 97, 0, 0, 0, 0] 0
        { compDir := "/", name := "u" } = .ok table ∧
      table.program.header.version < 5 ∧
      table.program.tablesEnd ≤ table.program.header.programOffset ∧
      table.program.header.programOffset < table.program.size ∧
      table.program.listed (RecordBytes.operands ⟨[98], 0, 0, 0, by decide, by decide⟩ .shortest) =
        [36, 0, 0, 0, 2, 0, 13, 0, 0, 0, 1, 1, 0, 1, 2, 0, 0, 98, 0, 0, 0, 0, 0,
          0, 221, 255, 255, 255, 255, 255, 255, 255, 255, 1, 3, 97, 0, 0, 0, 0] ∧
      table.program.replaced
          (RecordBytes.instruction ⟨[98], 0, 0, 0, by decide, by decide⟩ .shortest ++
            table.program.bytes.drop table.program.header.programOffset) =
        [39, 0, 0, 0, 2, 0, 8, 0, 0, 0, 1, 1, 0, 1, 2, 0, 0, 0, 0, 6, 3, 98, 0, 0, 0, 0,
          0, 221, 255, 255, 255, 255, 255, 255, 255, 255, 1, 3, 97, 0, 0, 0, 0] ∧
      parse .little
        (table.program.listed
          (RecordBytes.operands ⟨[98], 0, 0, 0, by decide, by decide⟩ .shortest)) 0
        { compDir := "/", name := "u" } = .ok early ∧
      parse .little
        (table.program.replaced
          (RecordBytes.instruction ⟨[98], 0, 0, 0, by decide, by decide⟩ .shortest ++
            table.program.bytes.drop table.program.header.programOffset)) 0
        { compDir := "/", name := "u" } = .ok late ∧
      early.trace.files.files =
        [{ path := "/u", directoryIndex := 0 }, { path := "/b", directoryIndex := 0 },
          { path := "/a", directoryIndex := 0 }] ∧
      late.trace.files.files =
        [{ path := "/u", directoryIndex := 0 }, { path := "/b", directoryIndex := 0 }] := by
  have hknown : (parse .little
      [31, 0, 0, 0, 2, 0, 8, 0, 0, 0, 1, 1, 0, 1, 2, 0, 0, 0,
        0, 221, 255, 255, 255, 255, 255, 255, 255, 255, 1, 3, 97, 0, 0, 0, 0] 0
      { compDir := "/", name := "u" }).map (fun table => decide (
        table.program.header.version < 5 ∧
        table.program.tablesEnd ≤ table.program.header.programOffset ∧
        table.program.header.programOffset < table.program.size ∧
        table.program.listed
            (RecordBytes.operands ⟨[98], 0, 0, 0, by decide, by decide⟩ .shortest) =
          [36, 0, 0, 0, 2, 0, 13, 0, 0, 0, 1, 1, 0, 1, 2, 0, 0, 98, 0, 0, 0, 0, 0,
            0, 221, 255, 255, 255, 255, 255, 255, 255, 255, 1, 3, 97, 0, 0, 0, 0] ∧
        table.program.replaced
            (RecordBytes.instruction ⟨[98], 0, 0, 0, by decide, by decide⟩ .shortest ++
              table.program.bytes.drop table.program.header.programOffset) =
          [39, 0, 0, 0, 2, 0, 8, 0, 0, 0, 1, 1, 0, 1, 2, 0, 0, 0, 0, 6, 3, 98, 0, 0, 0, 0,
            0, 221, 255, 255, 255, 255, 255, 255, 255, 255, 1, 3, 97, 0, 0, 0, 0])) =
      .ok true := by
    decide +kernel
  have hearly : (parse .little
      [36, 0, 0, 0, 2, 0, 13, 0, 0, 0, 1, 1, 0, 1, 2, 0, 0, 98, 0, 0, 0, 0, 0,
        0, 221, 255, 255, 255, 255, 255, 255, 255, 255, 1, 3, 97, 0, 0, 0, 0] 0
      { compDir := "/", name := "u" }).map (fun early => early.trace.files.files) =
      .ok [{ path := "/u", directoryIndex := 0 }, { path := "/b", directoryIndex := 0 },
        { path := "/a", directoryIndex := 0 }] := by
    decide +kernel
  have hlate : (parse .little
      [39, 0, 0, 0, 2, 0, 8, 0, 0, 0, 1, 1, 0, 1, 2, 0, 0, 0, 0, 6, 3, 98, 0, 0, 0, 0,
        0, 221, 255, 255, 255, 255, 255, 255, 255, 255, 1, 3, 97, 0, 0, 0, 0] 0
      { compDir := "/", name := "u" }).map (fun late => late.trace.files.files) =
      .ok [{ path := "/u", directoryIndex := 0 }, { path := "/b", directoryIndex := 0 }] := by
    decide +kernel
  obtain ⟨table, hparse, hfacts⟩ := exists_of_map_eq_ok hknown
  obtain ⟨hversion, hends, hprogram, hlisted, hreplaced⟩ := of_decide_eq_true hfacts
  obtain ⟨early, hown, hmore⟩ := exists_of_map_eq_ok hearly
  obtain ⟨late, hother, hfewer⟩ := exists_of_map_eq_ok hlate
  exact ⟨table, early, late, hparse, hversion, hends, hprogram, hlisted, hreplaced,
    hlisted ▸ hown, hreplaced ▸ hother, hmore, hfewer⟩

end LineTable
end DwarfLines
