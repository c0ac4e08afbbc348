import Mathlib
import DwarfLines.Proofs.Header.Acceptance
import DwarfLines.Proofs.Machine.Locality

/-!
# The header looks no further than it goes

Every reader of the header is local: values of any form, columns, lists of any version, and the
scalars before them. Only the check that the program begins inside the unit asks for the size of
the unit, so the fields after the length are read alike in all units that are large enough.
-/

namespace DwarfLines

namespace FormLayout

variable (layout : FormLayout) (code : UInt16)

theorem portable_string : (layout.string code).Portable := by
  have word := (Reader.portable_word layout.order layout.format).lift
  have fixed (width : ℕ) := (Reader.portable_fixed layout.order width).lift
  unfold string
  split
  · exact Reader.portable_terminated.lift.bind_pure _
  · exact word.bind fun _ => Reader.portable_lift_except _
  · exact word.bind fun _ => Reader.portable_lift_except _
  · exact word.bind fun _ => Reader.portable_lift_except _
  · exact Reader.portable_uleb128.lift.bind fun _ => Reader.portable_lift_except _
  · exact (fixed 1).bind fun _ => Reader.portable_lift_except _
  · exact (fixed 2).bind fun _ => Reader.portable_lift_except _
  · exact (fixed 4).bind fun _ => Reader.portable_lift_except _
  · exact Reader.portable_reject _

theorem portable_unsigned : (layout.unsigned code).Portable := by
  have fixed (width : ℕ) := (Reader.portable_fixed layout.order width).lift
  unfold unsigned
  split
  · exact (fixed 1).bind_pure _
  · exact (fixed 2).bind_pure _
  · exact (fixed 4).bind_pure _
  · exact (fixed 8).bind_pure _
  · exact Reader.portable_uleb128.lift
  · exact Reader.portable_reject _

theorem portable_skip : (layout.skip code).Portable := by
  have block (width : ℕ) :
      (do Reader.skip (← Reader.fixed layout.order width) : Reader LineError Unit).Portable :=
    (Reader.portable_fixed layout.order width).lift.bind fun _ => (Reader.portable_skip _).lift
  unfold skip
  split
  · split
    · exact (Reader.portable_skip _).lift
    · split
      all_goals try exact Reader.portable_uleb128.lift.bind_pure _
      · exact Reader.portable_sleb128.lift.bind_pure _
      · exact Reader.portable_terminated.lift.bind_pure _
      · exact block 1
      · exact block 2
      · exact block 4
      · exact Reader.portable_uleb128.lift.bind fun _ => (Reader.portable_skip _).lift
      · exact Reader.portable_uleb128.lift.bind fun _ => (Reader.portable_skip _).lift
      · exact Reader.portable_reject _
  · exact Reader.portable_reject _

end FormLayout

namespace EntryColumn

theorem portable_read : read.Portable := by
  refine Reader.portable_uleb128.lift.bind fun contentType =>
    Reader.portable_uleb128.lift.bind fun form => ?_
  split_ifs
  · exact Reader.portable_reject _
  · exact Reader.portable_reject _
  · exact Reader.portable_pure _

theorem local_readDirectoryFormat : readDirectoryFormat.Local := by
  refine Reader.local_byte.lift.bind fun count => ?_
  split_ifs
  · exact Reader.local_reject _
  · refine portable_read.local.bind fun column => ?_
    split_ifs
    · exact Reader.local_reject _
    · exact Reader.local_pure _
    · exact Reader.local_reject _

theorem local_readAllowed : readAllowed.Local := by
  refine portable_read.local.bind fun column => ?_
  split_ifs
  · exact Reader.local_pure _
  · exact Reader.local_reject _

theorem local_readFileFormat : readFileFormat.Local := by
  refine Reader.local_byte.lift.bind fun count => ?_
  split_ifs
  · exact Reader.local_reject _
  · exact Reader.local_times local_readAllowed _

end EntryColumn

namespace LegacyLists

theorem local_directoryNames : directoryNames.Local :=
  Reader.local_untilNone _ (Reader.local_terminated.bind_pure _)

theorem local_fileRecord : fileRecord.Local := by
  refine Reader.local_terminated.bind fun text => ?_
  split_ifs
  · exact Reader.local_pure _
  · exact (portable_fileDetails _).local.map _

theorem local_fileRecords : fileRecords.Local := Reader.local_untilNone _ local_fileRecord

end LegacyLists

namespace FileTable

variable (layout : FormLayout)

theorem local_readDirectory (compDir : String) (columns : List EntryColumn) :
    (readDirectory layout compDir columns).Local := by
  have path (_ : String) (column : EntryColumn) := (layout.portable_string column.form).local
  exact (Reader.local_foldlM path "" columns).bind fun _ => Reader.local_lift_except _

theorem local_readColumn (entry : FileEntry) (column : EntryColumn) :
    (readColumn layout entry column).Local := by
  unfold readColumn
  split
  · exact (layout.portable_string _).local.bind_pure _
  · exact (layout.portable_unsigned _).local.bind_pure _
  · split_ifs
    · exact (layout.portable_skip _).local.bind_pure _
    · exact (layout.portable_unsigned _).local.bind_pure _
  · exact (layout.portable_unsigned _).local.bind_pure _
  · exact Reader.local_offset.bind fun _ => (layout.portable_skip _).local.bind_pure _
  · exact (layout.portable_skip _).local.bind_pure _

theorem local_readFile (table : FileTable) (columns : List EntryColumn) :
    (table.readFile layout columns).Local :=
  (Reader.local_foldlM (local_readColumn layout) _ _).bind fun _ =>
    (Reader.local_lift_except _).bind_pure _

theorem local_readDirectories (columns : List EntryColumn) (context : UnitContext) :
    (readDirectories layout columns context).Local := by
  refine (Reader.local_lift_except _).bind fun compDir =>
    Reader.local_uleb128.lift.bind fun count => ?_
  split_ifs
  · exact Reader.local_reject _
  · exact (Reader.local_times (local_readDirectory layout _ _) _).bind_pure _

theorem local_readFiles (table : FileTable) (columns : List EntryColumn) :
    (table.readFiles layout columns).Local := by
  refine Reader.local_uleb128.lift.bind fun count => ?_
  split_ifs
  · exact Reader.local_reject _
  · exact (Reader.local_times (local_readFile layout _ _) _).bind_pure _

theorem local_readLegacy (context : UnitContext) : (readLegacy context).Local :=
  (Reader.local_lift_except _).bind fun _ => LegacyLists.local_directoryNames.lift.bind fun _ =>
    (Reader.local_lift_except _).bind fun _ => (Reader.local_lift_except _).bind fun _ =>
      LegacyLists.local_fileRecords.lift.bind fun _ => (Reader.local_lift_except _).bind_pure _

end FileTable

namespace HeaderPrologue

theorem local_readSizes (version : UInt16) (context : UnitContext) :
    (readSizes version context).Local := by
  unfold readSizes
  split_ifs
  · exact Reader.local_byte.lift.bind fun _ => Reader.local_byte.lift.bind_pure _
  · exact Reader.local_pure _

theorem format_of_read {order : ByteOrder} {size : ℕ} {context : UnitContext} {start last : Cursor}
    {prologue : HeaderPrologue} (h : read order size context start = .ok (prologue, last)) :
    ∃ body, Reader.initialLength order start =
        .ok ((prologue.unitLength, prologue.format), body) ∧
      body.offset ≤ prologue.programOffset := by
  obtain ⟨⟨length, format⟩, body, hlength, h⟩ := Reader.bind_eq_ok.1 h
  obtain ⟨version, afterVersion, hversion, h⟩ := Reader.bind_eq_ok.1 h
  split_ifs at h
  · cases h
  · obtain ⟨sizes, afterSizes, hsizes, h⟩ := Reader.bind_eq_ok.1 h
    obtain ⟨headerLength, place, hheader, h⟩ := Reader.bind_eq_ok.1 h
    obtain ⟨_, _, hoffset, h⟩ := Reader.bind_eq_ok.1 h
    cases hoffset
    have hfirst := (Reader.local_uint16 order).lift.offset_le hversion
    have hsecond := (local_readSizes version context).offset_le hsizes
    have hthird := (Reader.local_word order format).lift.offset_le hheader
    split_ifs at h
    · cases h
      refine ⟨body, Reader.lift_eq_ok.1 hlength, ?_⟩
      exact (hfirst.trans (hsecond.trans hthird)).trans (Nat.le_add_right _ _)
    · cases h

theorem local_read (order : ByteOrder) (size : ℕ) (context : UnitContext) :
    (read order size context).Local := by
  refine (Reader.local_initialLength order).lift.bind fun length =>
    (Reader.local_uint16 order).lift.bind fun version => ?_
  split_ifs
  · exact Reader.local_reject _
  · refine (local_readSizes version context).bind fun sizes =>
      (Reader.local_word order length.2).lift.bind fun headerLength =>
        Reader.local_offset.bind fun start => ?_
    dsimp only
    split_ifs
    · exact Reader.local_pure _
    · exact Reader.local_reject _

theorem read_append {order : ByteOrder} {size longer length longerLength : ℕ}
    {context : UnitContext} {format : DwarfFormat} {start whole body last : Cursor}
    {more : List UInt8} {prologue : HeaderPrologue}
    (hstart : Reader.initialLength order start = .ok ((length, format), body))
    (hwhole : Reader.initialLength order whole = .ok ((longerLength, format), body.append more))
    (h : read order size context start = .ok (prologue, last))
    (hsize : prologue.programOffset ≤ longer) :
    read order longer context whole =
      .ok ({ prologue with unitLength := longerLength }, last.append more) := by
  obtain ⟨⟨_, _⟩, _, hlength, h⟩ := Reader.bind_eq_ok.1 h
  rw [Reader.lift_eq_ok, hstart] at hlength
  cases hlength
  obtain ⟨version, _, hversion, h⟩ := Reader.bind_eq_ok.1 h
  refine Reader.bind_eq_ok.2 ⟨_, _, Reader.lift_eq_ok.2 hwhole, ?_⟩
  refine Reader.bind_eq_ok.2 ⟨_, _, (Reader.local_uint16 order).lift.append hversion more, ?_⟩
  split_ifs at h ⊢
  · cases h
  · obtain ⟨⟨addressSize, segmentSelectorSize⟩, _, hsizes, h⟩ := Reader.bind_eq_ok.1 h
    obtain ⟨headerLength, place, hheader, h⟩ := Reader.bind_eq_ok.1 h
    obtain ⟨_, _, hoffset, h⟩ := Reader.bind_eq_ok.1 h
    cases hoffset
    refine Reader.bind_eq_ok.2 ⟨_, _, (local_readSizes version context).append hsizes more, ?_⟩
    refine Reader.bind_eq_ok.2
      ⟨_, _, (Reader.local_word order format).lift.append hheader more, ?_⟩
    refine Reader.bind_eq_ok.2 ⟨_, _, rfl, ?_⟩
    split_ifs at h with hprogram
    · cases h
      rw [Cursor.append, if_pos hsize]
      rfl
    · cases h

end HeaderPrologue

namespace Parameters

theorem local_read (order : ByteOrder) (version : UInt16) (addressSize : UInt8) :
    (read order version addressSize).Local := by
  have maximum : (readMaximumOperations version).Local := by
    unfold readMaximumOperations
    split_ifs
    · exact Reader.local_pure _
    · exact Reader.local_byte.lift
  refine Reader.local_byte.lift.bind fun _ => maximum.bind fun _ => ?_
  split_ifs
  · exact Reader.local_reject _
  · refine Reader.local_byte.lift.bind fun _ => Reader.local_byte.lift.bind fun _ =>
      Reader.local_byte.lift.bind fun _ => ?_
    split_ifs
    · exact Reader.local_reject _
    · refine Reader.local_byte.lift.bind fun _ => ?_
      split_ifs
      · exact Reader.local_reject _
      · exact Reader.local_pure _

end Parameters

namespace Header

theorem local_readOperandCount (opcode : ℕ) : (readOperandCount opcode).Local := by
  refine Reader.local_byte.lift.bind fun found => ?_
  split
  · split_ifs
    · exact Reader.local_pure _
    · exact Reader.local_reject _
  · exact Reader.local_pure _

theorem local_readOperandCounts (opcode count : ℕ) : (readOperandCounts opcode count).Local := by
  induction count generalizing opcode with
  | zero => exact Reader.local_pure _
  | succ count ih =>
    exact (local_readOperandCount opcode).bind fun _ => (ih (opcode + 1)).bind_pure _

theorem local_readLists (prologue : HeaderPrologue) (order : ByteOrder) (context : UnitContext) :
    (readLists prologue order context).Local := by
  unfold readLists readDescribed
  split_ifs
  · exact EntryColumn.local_readDirectoryFormat.bind fun _ =>
      (FileTable.local_readDirectories _ _ _).bind fun _ =>
        EntryColumn.local_readFileFormat.bind fun _ =>
          (FileTable.local_readFiles _ _ _).bind_pure _
  · exact (FileTable.local_readLegacy context).bind_pure _

theorem format_of_read {order : ByteOrder} {size : ℕ} {context : UnitContext} {start last : Cursor}
    {header : Header} {files : FileTable}
    (h : read order size context start = .ok ((header, files), last)) :
    header.order = order ∧ ∃ body, Reader.initialLength order start =
        .ok ((header.unitLength, header.format), body) ∧ body.offset ≤ header.programOffset := by
  obtain ⟨prologue, _, hprologue, h⟩ := Reader.bind_eq_ok.1 h
  obtain ⟨parameters, _, hparameters, h⟩ := Reader.bind_eq_ok.1 h
  obtain ⟨counts, _, -, h⟩ := Reader.bind_eq_ok.1 h
  obtain ⟨lists, _, -, h⟩ := Reader.bind_eq_ok.1 h
  cases h
  exact ⟨(Parameters.gives_read _ _ _ hparameters).1, HeaderPrologue.format_of_read hprologue⟩

theorem local_read (order : ByteOrder) (size : ℕ) (context : UnitContext) :
    (read order size context).Local :=
  (HeaderPrologue.local_read order size context).bind fun prologue =>
    (Parameters.local_read order _ _).bind fun _ => (local_readOperandCounts 1 _).bind fun _ =>
      (local_readLists prologue order context).bind_pure _

/-- A header, read again in a unit that is longer and says so. -/
theorem read_append {order : ByteOrder} {size longer length longerLength : ℕ}
    {context : UnitContext} {format : DwarfFormat} {start whole body last : Cursor}
    {more : List UInt8} {header : Header} {files : FileTable}
    (hstart : Reader.initialLength order start = .ok ((length, format), body))
    (hwhole : Reader.initialLength order whole = .ok ((longerLength, format), body.append more))
    (h : read order size context start = .ok ((header, files), last))
    (hsize : header.programOffset ≤ longer) :
    read order longer context whole =
      .ok (({ header with unitLength := longerLength }, files), last.append more) := by
  obtain ⟨prologue, _, hprologue, h⟩ := Reader.bind_eq_ok.1 h
  obtain ⟨parameters, _, hparameters, h⟩ := Reader.bind_eq_ok.1 h
  obtain ⟨counts, _, hcounts, h⟩ := Reader.bind_eq_ok.1 h
  obtain ⟨⟨directoryFormat, fileFormat, table⟩, _, hlists, h⟩ := Reader.bind_eq_ok.1 h
  cases h
  refine Reader.bind_eq_ok.2
    ⟨_, _, HeaderPrologue.read_append hstart hwhole hprologue hsize, ?_⟩
  refine Reader.bind_eq_ok.2
    ⟨_, _, (Parameters.local_read order _ _).append hparameters more, ?_⟩
  refine Reader.bind_eq_ok.2 ⟨_, _, (local_readOperandCounts 1 _).append hcounts more, ?_⟩
  exact Reader.bind_eq_ok.2
    ⟨_, _, (local_readLists prologue order context).append hlists more, rfl⟩

end Header
end DwarfLines
