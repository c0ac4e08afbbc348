import Mathlib
import DwarfLines.Proofs.Header.Fields
import DwarfLines.Proofs.Table.ProgramTrace
import DwarfLines.Proofs.Table.Requests

/-!
# Programs that are cut off

A unit may be cut off anywhere in its program. What the machine does up to a row depends on
nothing behind the row, so a pass over the cut program is given the rows that end before the cut
and then fails, unless the cut is where one of these rows ends. No row comes of an instruction
that the cut goes through.
-/

namespace DwarfLines

namespace LineProgram

def cutAt (program : LineProgram) (finish : ℕ) : List UInt8 :=
  program.header.format.frame program.header.order
    ((program.bytes.take finish).drop program.header.format.lengthSize)

/-- A program that another one begins with: both run alike, and their bytes are the same from the
first instruction to the end of the shorter one. -/
structure Begins (cut whole : LineProgram) : Prop where
  parameters : cut.header.toParameters = whole.header.toParameters
  programOffset : cut.header.programOffset = whole.header.programOffset
  size_le : cut.size ≤ whole.size
  bytes : ∀ offset, whole.header.programOffset ≤ offset → offset ≤ cut.size →
    whole.cursorAt offset = (cut.cursorAt offset).append (whole.bytes.drop cut.size)

variable {cut whole : LineProgram}

theorem Begins.start (h : cut.Begins whole) : Pass.start cut = Pass.start whole := by
  rw [Pass.start, Pass.start, h.parameters, h.programOffset]

theorem begins_of_frame {order : ByteOrder} {format : DwarfFormat} {body : List UInt8} {count : ℕ}
    (hwhole : whole.bytes = format.frame order body)
    (hcut : cut.bytes = format.frame order (body.take count)) (hcount : count ≤ body.length)
    (hparameters : cut.header.toParameters = whole.header.toParameters)
    (hoffset : cut.header.programOffset = whole.header.programOffset)
    (hbegin : format.lengthSize ≤ whole.header.programOffset) : cut.Begins whole := by
  have hshorter : (body.take count).length = count := List.length_take_of_le hcount
  have hsize : cut.size = format.lengthSize + count := by
    rw [size, hcut, DwarfFormat.length_frame, hshorter]
  refine ⟨hparameters, hoffset, ?_, fun offset hlow hhigh => ?_⟩
  · rw [hsize, size, hwhole, DwarfFormat.length_frame]
    exact Nat.add_le_add_left hcount _
  · obtain ⟨place, rfl⟩ := Nat.exists_eq_add_of_le (hbegin.trans hlow)
    have hplace : place ≤ (body.take count).length := by
      rw [hsize] at hhigh
      rw [hshorter]
      exact Nat.le_of_add_le_add_left hhigh
    rw [cursorAt, cursorAt, Cursor.append, hsize, hwhole, hcut, format.drop_frame,
      format.drop_frame, format.drop_frame, ← List.drop_append_of_le_length hplace,
      List.take_append_drop]

/-- A run that comes to a row before the cut is the same with the cut and without it. -/
theorem Begins.run_iff (h : cut.Begins whole) {offset last : ℕ}
    (hlow : whole.header.programOffset ≤ offset) (hle : offset ≤ last) (hlast : last ≤ cut.size)
    {state next : MachineState} {row : Registers} :
    MachineState.run cut.header.toParameters state (cut.cursorAt offset) =
        (next, .ok (some row, cut.cursorAt last)) ↔
      MachineState.run whole.header.toParameters state (whole.cursorAt offset) =
        (next, .ok (some row, whole.cursorAt last)) := by
  have hoffset := h.bytes offset hlow (hle.trans hlast)
  have hfinish := h.bytes last (hlow.trans hle) hlast
  rw [h.parameters]
  constructor
  · intro hrun
    obtain ⟨taken, hpasses, hlocal⟩ := MachineState.run_local hrun
    rw [hoffset, hfinish, Cursor.append, hpasses.rest, List.append_assoc]
    exact hlocal _
  · intro hrun
    obtain ⟨taken, hpasses, hlocal⟩ := MachineState.run_local hrun
    have hrest := hpasses.rest
    rw [hoffset, hfinish, Cursor.append, Cursor.append, ← List.append_assoc] at hrest
    have hcut := List.append_cancel_right hrest
    have hsame := hlocal (cut.cursorAt last).rest
    rw [← hcut] at hsame
    exact hsame

end LineProgram

namespace Pass

variable {program cut whole : LineProgram} {files other : FileTable} {pass : Pass} {row : Row}
  {state : MachineState} {last : ℕ}

theorem GivesRow.trace_eq (h : GivesRow program files pass row state last) :
    pass.trace program files =
      ({ files := filesAfter state.files (program.cursorAt last)
         pass := { registers := state.registers, offset := last }
         answer := some (.ok row) } : Advance).trace program := by
  rw [Pass.trace_eq, h.next]

theorem GivesRow.agrees (h : GivesRow program files pass row state last)
    (hfiles : other.Agrees files) :
    ∃ expected, GivesRow program other pass row expected last ∧ expected.Agrees state := by
  have hbegin : MachineState.Agrees ⟨pass.registers, other⟩ ⟨pass.registers, files⟩ :=
    ⟨rfl, hfiles⟩
  obtain ⟨hstate, hanswer⟩ := MachineState.run_agrees program.header.toParameters hbegin
    (program.cursorAt pass.offset)
  rw [h.run] at hstate hanswer
  exact ⟨_, ⟨h.failed, h.offset_le, Prod.ext rfl hanswer,
    (hstate.files.file? row.registers.fileIndex).trans h.file⟩, hstate⟩

/-- A row before the cut is given with the cut and without it. -/
theorem givesRow_iff (h : cut.Begins whole) (hlow : whole.header.programOffset ≤ pass.offset) :
    GivesRow cut files pass row state last ↔
      GivesRow whole files pass row state last ∧ last ≤ cut.size := by
  constructor
  · intro hgives
    obtain ⟨hlt, hlast⟩ := hgives.offset_lt
    exact ⟨⟨hgives.failed, hgives.offset_le.trans h.size_le,
      (h.run_iff hlow hlt.le hlast).mp hgives.run, hgives.file⟩, hlast⟩
  · rintro ⟨hgives, hlast⟩
    have hlt := hgives.offset_lt.1
    exact ⟨hgives.failed, hlt.le.trans hlast, (h.run_iff hlow hlt.le hlast).mpr hgives.run,
      hgives.file⟩

theorem offset_lt_of_mem_trace {moment : Moment}
    (h : moment ∈ (pass.trace program files).moments) : pass.offset < moment.pass.offset := by
  fun_induction Pass.trace program files pass with
  | case1 => cases h
  | case2 => cases h
  | case3 files pass advance row hanswer hoffset rest ih =>
    rcases List.mem_cons.mp h with rfl | hmore
    · exact hoffset.1
    · exact hoffset.1.trans (ih hmore)

theorem exists_givesRow_of_mem_trace {moment : Moment}
    (h : moment ∈ (pass.trace program files).moments) :
    ∃ row state last, GivesRow program files pass row state last ∧
      last ≤ moment.pass.offset := by
  rw [Pass.trace_eq] at h
  rcases hanswer : (next program files pass).answer with _ | e | row
  · simp [Advance.trace, hanswer] at h
  · simp [Advance.trace, hanswer] at h
  · obtain ⟨state, last, hgives⟩ := exists_givesRow hanswer
    refine ⟨row, state, last, hgives, ?_⟩
    rw [hgives.next] at h
    rcases List.mem_cons.mp h with rfl | hmore
    · exact le_rfl
    · exact (offset_lt_of_mem_trace hmore).le

/-- A pass over a cut program is given a beginning of the rows, and ends plainly if it has come to
the cut with the last of them. -/
theorem trace_cut (h : cut.Begins whole) (hfiles : other.Agrees files)
    (hfailed : pass.failed = false) (hlow : whole.header.programOffset ≤ pass.offset)
    (hhigh : pass.offset ≤ cut.size) :
    (pass.trace cut files).rows <+: (pass.trace whole other).rows ∧
      ((pass.trace cut files).fault = none ↔ pass.offset = cut.size ∨
        ∃ moment ∈ (pass.trace whole other).moments, moment.pass.offset = cut.size) := by
  fun_induction Pass.trace cut files pass generalizing other with
  | case1 files pass advance =>
    rename_i hanswer
    have hfinished := isFinished_of_next hanswer
    rw [isFinished, hfailed, Bool.false_or, decide_eq_true_eq] at hfinished
    exact ⟨List.nil_prefix, fun _ => .inl (Nat.le_antisymm hhigh hfinished), fun _ => rfl⟩
  | case2 files pass advance e =>
    rename_i hanswer
    refine ⟨List.nil_prefix, fun hplain => ?_, ?_⟩
    · cases hplain
    · rintro (hend | ⟨moment, hmoment, hoffset⟩)
      · have hfinished : pass.isFinished cut = true := by simp [isFinished, hend]
        have hnext := next_of_isFinished hhigh hfinished files
        cases (congrArg Advance.answer hnext).symm.trans hanswer
      · -- The first row of the whole program ends before the cut, so the cut program gives it too.
        obtain ⟨row, state, last, hgives, hle⟩ := exists_givesRow_of_mem_trace hmoment
        obtain ⟨expected, hexpected, -⟩ := hgives.agrees hfiles.symm
        have hcut := (givesRow_iff h hlow).mpr ⟨hexpected, hle.trans_eq hoffset⟩
        cases (congrArg Advance.answer hcut.next).symm.trans hanswer
  | case3 files pass advance row hanswer hoffset rest =>
    rename_i ih
    obtain ⟨state, last, hgives⟩ := exists_givesRow hanswer
    obtain ⟨hwhole, hlast⟩ := (givesRow_iff h hlow).mp hgives
    obtain ⟨expected, hexpected, hstate⟩ := hwhole.agrees hfiles
    have hplace : advance.pass = { registers := state.registers, offset := last } :=
      congrArg Advance.pass hgives.next
    have hleft : advance.files.Agrees state.files :=
      congrArg Advance.files hgives.next ▸ filesAfter_agrees _ _
    have hafter : (filesAfter expected.files (whole.cursorAt last)).Agrees advance.files :=
      (filesAfter_agrees _ _).trans (hstate.files.trans hleft.symm)
    obtain ⟨hrows, hends⟩ := ih hafter (congrArg failed hplace) (hlow.trans hoffset.1.le) hoffset.2
    have htrace := hexpected.trace_eq
    rw [hstate.registers, ← hplace] at htrace
    rw [htrace]
    refine ⟨List.cons_prefix_cons.mpr ⟨rfl, hrows⟩, hends.trans ?_⟩
    constructor
    · rintro (hend | ⟨moment, hmoment, hplace⟩)
      · exact .inr ⟨_, List.mem_cons_self, hend⟩
      · exact .inr ⟨moment, List.mem_cons_of_mem _ hmoment, hplace⟩
    · rintro (hend | ⟨moment, hmoment, hplace⟩)
      · exact absurd hend (hoffset.1.trans_le hoffset.2).ne
      · rcases List.mem_cons.mp hmoment with rfl | hmore
        · exact .inl hplace
        · exact .inr ⟨moment, hmore, hplace⟩

end Pass

/-- A header is read in a unit as it is read in what is left when the end is cut off, except for
the length. -/
theorem Header.read_frame {order : ByteOrder} {format : DwarfFormat} {context : UnitContext}
    {body : List UInt8} {count : ℕ} {header cut : Header} {files cutFiles : FileTable}
    {last cutLast : Cursor} (hfits : body.length ≤ format.maxLength)
    (hread : read order (format.frame order body).length context
      (Cursor.start (format.frame order body)) = .ok ((header, files), last))
    (hcut : read order (format.frame order (body.take count)).length context
      (Cursor.start (format.frame order (body.take count))) = .ok ((cut, cutFiles), cutLast)) :
    header = { cut with unitLength := body.length } ∧ files = cutFiles := by
  have hshorter : (body.take count).length ≤ body.length := List.length_take_le' _ _
  have hstart := Reader.initialLength_frame order (hshorter.trans hfits) 0 []
  have hwhole := Reader.initialLength_frame order hfits 0 []
  rw [List.append_nil, List.append_nil] at hstart hwhole
  have hbody : (⟨0 + format.lengthSize, body⟩ : Cursor) =
      (⟨0 + format.lengthSize, body.take count⟩ : Cursor).append (body.drop count) := by
    rw [Cursor.append, List.take_append_drop]
  rw [hbody] at hwhole
  have hsize : (format.frame order (body.take count)).length ≤
      (format.frame order body).length := by
    rw [DwarfFormat.length_frame, DwarfFormat.length_frame]
    exact Nat.add_le_add_left hshorter _
  obtain ⟨-, -, -, -, -, hprogram, -⟩ := Header.gives_read _ _ _ hcut
  have hagain := Header.read_append hstart hwhole hcut (hprogram.trans hsize)
  rw [Cursor.start, hagain] at hread
  cases hread
  exact ⟨rfl, rfl⟩

namespace LineTable

variable {order : ByteOrder} {lines : List UInt8} {offset : ℕ} {context : UnitContext}
  {table cut : LineTable}

/-- What is read from a unit that was cut off is a beginning of the whole table. -/
theorem begins_of_parse (hparse : parse order lines offset context = .ok table) {finish : ℕ}
    (hlow : table.program.header.programOffset ≤ finish) (hhigh : finish ≤ table.size)
    {before after : List UInt8}
    (hcut : parse order (before ++ table.program.cutAt finish ++ after) before.length context =
      .ok cut) :
    cut.program.Begins table.program ∧ cut.files = table.files ∧ cut.size = finish := by
  obtain ⟨body, hbytes, hfits, -, horder, hbegin⟩ := exists_frame_of_parse hparse
  generalize hformat : table.program.header.format = format at hbytes hfits hbegin
  obtain ⟨hunit, rest, hread⟩ := read_of_parse hparse
  obtain ⟨hcutUnit, cutRest, hcutRead⟩ := read_of_parse hcut
  obtain ⟨count, rfl⟩ := Nat.exists_eq_add_of_le (hbegin.trans hlow)
  have hlength := length_of_unitBytes hunit
  rw [size, LineProgram.size] at hhigh hread
  rw [hbytes, DwarfFormat.length_frame] at hhigh hlength
  have hcount : count ≤ body.length := Nat.le_of_add_le_add_left hhigh
  have hshorter : (body.take count).length = count := List.length_take_of_le hcount
  have hcutAt : table.program.cutAt (format.lengthSize + count) =
      format.frame order (body.take count) := by
    have hbody := format.drop_frame order body 0
    rw [Nat.add_zero, List.drop_zero] at hbody
    rw [LineProgram.cutAt, hformat, horder, hbytes, List.drop_take, Nat.add_sub_cancel_left,
      hbody]
  have hcutBytes : cut.program.bytes = format.frame order (body.take count) := by
    have hcutFits := hshorter.trans_le (hcount.trans hfits)
    have hcutLength : (format.frame order (body.take count)).length < 2 ^ 64 := by
      rw [DwarfFormat.length_frame]
      omega
    rw [hcutAt, unitBytes_frame hcutFits hcutLength] at hcutUnit
    exact (Except.ok.inj hcutUnit).symm
  have hsize : cut.size = format.lengthSize + count := by
    rw [size, LineProgram.size, hcutBytes, DwarfFormat.length_frame, hshorter]
  rw [hbytes] at hread
  rw [size, LineProgram.size, hcutBytes] at hcutRead
  obtain ⟨hheader, hfiles⟩ := Header.read_frame hfits hread hcutRead
  refine ⟨LineProgram.begins_of_frame hbytes hcutBytes hcount ?_ ?_ hbegin, hfiles.symm, hsize⟩
  · rw [hheader]
  · rw [hheader]

/-- A pass over a unit that was cut off in its program is given a beginning of the rows, and it
ends plainly if the cut is where the program begins or where one of the rows ends. -/
theorem trace_truncated (hparse : parse order lines offset context = .ok table) {finish : ℕ}
    (hlow : table.program.header.programOffset ≤ finish) (hhigh : finish ≤ table.size)
    {before after : List UInt8}
    (hcut : parse order (before ++ table.program.cutAt finish ++ after) before.length context =
      .ok cut) :
    cut.trace.rows <+: table.trace.rows ∧
      (cut.trace.fault = none ↔ finish = table.program.header.programOffset ∨
        ∃ moment ∈ table.trace.moments, moment.pass.offset = finish) := by
  obtain ⟨hbegins, hfiles, rfl⟩ := begins_of_parse hparse hlow hhigh hcut
  have hfresh : (Pass.start table.program).failed = false := rfl
  have htrace := Pass.trace_cut hbegins (.refl table.files) hfresh le_rfl hlow
  rw [trace, trace, hbegins.start, hfiles, eq_comm (a := cut.size)]
  exact htrace

/-- A unit cut off behind its first row, and once more inside the next instruction. -/
theorem trace_truncated_after_row :
    ∃ table, parse .little
        [26, 0, 0, 0, 2, 0, 8, 0, 0, 0, 1, 1, 0, 1, 2, 0, 0, 0,
          0, 6, 3, 97, 0, 0, 0, 0, 1, 0, 1, 1] 0 { compDir := "/", name := "u" } = .ok table ∧
      (∃ cut, parse .little ([] ++ table.program.cutAt 27 ++ []) 0 { compDir := "/", name := "u" } =
          .ok cut ∧ cut.trace.rows <+: table.trace.rows ∧ cut.trace.fault = none) ∧
      ∃ cut, parse .little ([] ++ table.program.cutAt 28 ++ []) 0 { compDir := "/", name := "u" } =
          .ok cut ∧ cut.trace.rows <+: table.trace.rows ∧ cut.trace.fault ≠ none := by
  have hknown : (parse .little
      [26, 0, 0, 0, 2, 0, 8, 0, 0, 0, 1, 1, 0, 1, 2, 0, 0, 0,
        0, 6, 3, 97, 0, 0, 0, 0, 1, 0, 1, 1] 0 { compDir := "/", name := "u" }).map
        (fun table => (table.program.header.programOffset, table.size,
          table.trace.moments.map (·.pass.offset),
          (parse .little ([] ++ table.program.cutAt 27 ++ []) 0
            { compDir := "/", name := "u" }).isOk,
          (parse .little ([] ++ table.program.cutAt 28 ++ []) 0
            { compDir := "/", name := "u" }).isOk)) =
      .ok (18, 30, [27, 30], true, true) := by
    decide +kernel
  cases hparse : parse .little
      [26, 0, 0, 0, 2, 0, 8, 0, 0, 0, 1, 1, 0, 1, 2, 0, 0, 0,
        0, 6, 3, 97, 0, 0, 0, 0, 1, 0, 1, 1] 0 { compDir := "/", name := "u" } with
  | error e => simp [hparse, Except.map] at hknown
  | ok table =>
  simp only [hparse, Except.map, Except.ok.injEq, Prod.mk.injEq] at hknown
  obtain ⟨hoffset, hsize, hends, hrow, hinside⟩ := hknown
  obtain ⟨plain, hplain⟩ := exists_of_isOk hrow
  obtain ⟨broken, hbroken⟩ := exists_of_isOk hinside
  have hmem (finish : ℕ) : (∃ moment ∈ table.trace.moments, moment.pass.offset = finish) ↔
      finish = 27 ∨ finish = 30 := by
    rw [← List.mem_map, hends]
    simp
  have hrow := trace_truncated hparse (by omega) (by omega) hplain
  have hinside := trace_truncated hparse (by omega) (by omega) hbroken
  rw [hmem, hoffset] at hrow hinside
  exact ⟨table, rfl, ⟨plain, hplain, hrow.1, hrow.2.mpr (by decide)⟩, broken, hbroken,
    hinside.1, fun hfault => absurd (hinside.2.mp hfault) (by decide)⟩

end LineTable

end DwarfLines
