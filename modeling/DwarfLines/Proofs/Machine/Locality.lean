import Mathlib
import DwarfLines.Proofs.Bytes.Locality
import DwarfLines.Proofs.Machine.SharedFiles

/-!
# The machine looks no further than it goes

An instruction is decided by its bytes, an extended one by all bytes up to its declared end. So a
step that succeeds does the same when other bytes follow its instruction, and so does a run that
comes to a row. A run that comes to no row may come to one when more bytes follow.
-/

namespace DwarfLines

theorem LegacyLists.portable_fileDetails (name : String) : (fileDetails name).Portable :=
  Reader.portable_uleb128.bind fun _ => Reader.portable_uleb128.bind fun _ =>
    Reader.portable_uleb128.bind_pure _

namespace Instruction

theorem portable_readStandard (parameters : Parameters) (opcode : UInt8) :
    (readStandard parameters opcode).Portable := by
  have unsigned {f : UInt64 → Instruction} :
      (do return f (← Reader.uleb128) : Reader LineError Instruction).Portable :=
    Reader.portable_uleb128.lift.bind_pure f
  unfold readStandard
  split
  · exact Reader.portable_pure _
  · exact unsigned
  · exact Reader.portable_sleb128.lift.bind_pure _
  · exact unsigned
  · exact unsigned
  · exact Reader.portable_pure _
  · exact Reader.portable_pure _
  · exact Reader.portable_pure _
  · exact (Reader.portable_uint16 _).lift.bind_pure _
  · exact Reader.portable_pure _
  · exact Reader.portable_pure _
  · exact unsigned
  · exact Reader.portable_reject _

theorem portable_readFileRecord : readFileRecord.Portable :=
  Reader.portable_terminated.bind fun _ => LegacyLists.portable_fileDetails _

theorem portable_readExtended (parameters : Parameters) (opcode : UInt8) :
    (readExtended parameters opcode).Portable := by
  unfold readExtended
  split
  · exact Reader.portable_pure _
  · exact (Reader.portable_address _ _).lift.bind_pure _
  · exact portable_readFileRecord.lift.bind_pure _
  · exact Reader.portable_uleb128.lift.bind_pure _
  · split_ifs
    · exact Reader.portable_reject _
    · exact Reader.portable_throw _

end Instruction

namespace Decoded

theorem local_readExtended (parameters : Parameters) : (readExtended parameters).Local := by
  refine Reader.local_uleb128.lift.bind fun length => Reader.local_offset.bind fun start => ?_
  dsimp only
  split_ifs
  · exact Reader.local_byte.lift.bind fun opcode =>
      (Instruction.portable_readExtended _ _).local.bind_pure _
  · exact Reader.local_reject _

theorem local_read (parameters : Parameters) : (read parameters).Local := by
  refine Reader.local_byte.lift.bind fun opcode => ?_
  split_ifs
  · exact Reader.local_pure _
  · exact local_readExtended _
  · exact (Instruction.portable_readStandard _ _).local.bind_pure _

theorem local_close (decoded : Decoded) : decoded.close.Local := by
  unfold close
  split
  · exact Reader.local_pure _
  · refine Reader.local_offset.bind fun current => ?_
    split_ifs
    · exact Reader.local_reject _
    · exact Reader.local_seek _

end Decoded

namespace MachineState

variable {parameters : Parameters} {state next : MachineState}

/-- A step that succeeds, begun on the bytes of its instruction with anything after them. -/
theorem step_local {c last : Cursor} {row : Option Registers}
    (h : step parameters state c = (next, .ok (row, last))) :
    ∃ taken, c.Passes taken last ∧ ∀ rest,
      step parameters state ⟨c.offset, taken ++ rest⟩ =
        (next, .ok (row, ⟨last.offset, rest⟩)) := by
  obtain ⟨decoded, operandsEnd, hread, hexecute, hclose⟩ := (step_eq_ok parameters).mp h
  obtain ⟨taken, hpasses, hreads⟩ := Decoded.local_read parameters hread
  obtain ⟨more, hmore, hcloses⟩ := Decoded.local_close decoded hclose
  refine ⟨taken ++ more, hpasses.trans hmore, fun rest => (step_eq_ok parameters).mpr ?_⟩
  refine ⟨decoded, ⟨operandsEnd.offset, more ++ rest⟩, ?_, hexecute, ?_⟩
  · rw [List.append_assoc, hpasses.offset]
    exact hreads (more ++ rest)
  · rw [hmore.offset]
    exact hcloses rest

theorem not_atEnd_of_step {c last : Cursor} {row : Option Registers}
    (h : step parameters state c = (next, .ok (row, last))) : c.atEnd = false := by
  have hlength := Cursor.length_lt (step_lt parameters state h)
  rw [Cursor.atEnd, List.isEmpty_eq_false_iff]
  exact List.ne_nil_of_length_pos (Nat.zero_lt_of_lt hlength)

/-- A run that comes to a row, begun on the bytes of its instructions with anything after them. -/
theorem run_local {c last : Cursor} {row : Registers}
    (h : run parameters state c = (next, .ok (some row, last))) :
    ∃ taken, c.Passes taken last ∧ ∀ rest,
      run parameters state ⟨c.offset, taken ++ rest⟩ =
        (next, .ok (some row, ⟨last.offset, rest⟩)) := by
  fun_induction run parameters state c with
  | case1 state c hend => cases h
  | case2 state c hend after e hstep => cases h
  | case3 state c hend after shown place hstep =>
    cases h
    obtain ⟨taken, hpasses, hlocal⟩ := step_local hstep
    refine ⟨taken, hpasses, fun rest => ?_⟩
    exact run_of_row (not_atEnd_of_step (hlocal rest)) (hlocal rest)
  | case4 state c hend after place hstep hlt ih =>
    obtain ⟨taken, hpasses, hlocal⟩ := step_local hstep
    obtain ⟨more, hmore, hrun⟩ := ih h
    refine ⟨taken ++ more, hpasses.trans hmore, fun rest => ?_⟩
    have hfirst := hlocal (more ++ rest)
    rw [List.append_assoc, run_of_silent (not_atEnd_of_step hfirst) hfirst]
    exact hrun rest

end MachineState
end DwarfLines
