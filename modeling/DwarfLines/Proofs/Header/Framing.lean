import Mathlib
import DwarfLines.Proofs.Dwarf.FormReading
import DwarfLines.Proofs.Header.Acceptance

/-!
# Units in the line section

A unit is its length, written in its format, and a body as long as it says. A unit is found where
it was put, whatever stands around it, and nothing else is ever found.
-/

namespace DwarfLines

/-- A body after a field with its length. -/
def DwarfFormat.frame (format : DwarfFormat) (order : ByteOrder) (body : List UInt8) :
    List UInt8 :=
  format.lengthBytes order body.length ++ body

theorem DwarfFormat.length_frame (format : DwarfFormat) (order : ByteOrder) (body : List UInt8) :
    (format.frame order body).length = format.lengthSize + body.length := by
  rw [frame, List.length_append, length_lengthBytes]

/-- Bytes that begin with their own length are a unit. -/
theorem DwarfFormat.eq_frame {order : ByteOrder} {unit : List UInt8} {length : ℕ}
    {format : DwarfFormat} {last : Cursor}
    (hdeclares : Reader.initialLength order (Cursor.start unit) = .ok ((length, format), last))
    (hexact : format.lengthSize + length = unit.length) :
    unit = format.frame order last.rest ∧ last.rest.length ≤ format.maxLength := by
  obtain ⟨hfits, hbytes⟩ := Reader.bytes_of_initialLength hdeclares
  replace hbytes : unit = format.lengthBytes order length ++ last.rest := hbytes
  have hlength : last.rest.length = length := by
    rw [hbytes, List.length_append, length_lengthBytes] at hexact
    exact (Nat.add_left_cancel hexact).symm
  constructor
  · rw [frame, hlength]
    exact hbytes
  · rw [hlength]
    exact hfits

theorem DwarfFormat.drop_frame (format : DwarfFormat) (order : ByteOrder) (body : List UInt8)
    (count : ℕ) : (format.frame order body).drop (format.lengthSize + count) = body.drop count := by
  rw [← List.drop_drop, ← format.length_lengthBytes order body.length, frame, List.drop_left]

theorem Reader.initialLength_frame (order : ByteOrder) {format : DwarfFormat} {body : List UInt8}
    (hfits : body.length ≤ format.maxLength) (offset : ℕ) (after : List UInt8) :
    initialLength order ⟨offset, format.frame order body ++ after⟩ =
      .ok ((body.length, format), ⟨offset + format.lengthSize, body ++ after⟩) := by
  have hreads := reads_initialLength order format offset hfits (body ++ after)
  rw [DwarfFormat.length_lengthBytes] at hreads
  rw [DwarfFormat.frame, List.append_assoc]
  exact hreads

/-- A unit is found where it was put, whatever stands around it, unless it is too long to have an
end. -/
theorem unitBytes_frame_eq {order : ByteOrder} {format : DwarfFormat} {body : List UInt8}
    (hfits : body.length ≤ format.maxLength) (before after : List UInt8) :
    unitBytes order (before ++ format.frame order body ++ after) before.length =
      if (format.frame order body).length < 2 ^ 64 then
        .ok (format.frame order body)
      else
        .error (.format (.unitLengthOverflow body.length)) := by
  have hat : Cursor.at? (before ++ format.frame order body ++ after) before.length =
      .ok ⟨before.length, format.frame order body ++ after⟩ := by
    refine Reader.at?_eq_ok.2 ⟨by simp, ?_⟩
    rw [List.append_assoc, List.drop_left]
  have hinitial := Reader.initialLength_frame order hfits before.length after
  have htake := Reader.reads_take before.length (format.frame order body) after
  rw [DwarfFormat.length_frame] at htake ⊢
  unfold unitBytes
  rw [hat]
  change (LineError.ofRead (Reader.initialLength order
    ⟨before.length, format.frame order body ++ after⟩) >>= _) = _
  rw [hinitial]
  change (if format.lengthSize + body.length < 0x10000000000000000 then _ else _) = _
  by_cases hlength : format.lengthSize + body.length < 2 ^ 64
  · rw [if_pos hlength, if_pos (show _ < 0x10000000000000000 from hlength)]
    rw [htake]
    rfl
  · rw [if_neg hlength, if_neg (show ¬ _ < 0x10000000000000000 from hlength)]
    rfl

theorem unitBytes_frame {order : ByteOrder} {format : DwarfFormat} {body : List UInt8}
    (hfits : body.length ≤ format.maxLength) (hlength : (format.frame order body).length < 2 ^ 64)
    (before after : List UInt8) :
    unitBytes order (before ++ format.frame order body ++ after) before.length =
      .ok (format.frame order body) := by
  rw [unitBytes_frame_eq hfits, if_pos hlength]

theorem exists_frame_of_unitBytes {order : ByteOrder} {lines bytes : List UInt8} {offset : ℕ}
    (h : unitBytes order lines offset = .ok bytes) :
    ∃ format body, bytes = DwarfFormat.frame format order body ∧
      body.length ≤ format.maxLength := by
  obtain ⟨start, -, h⟩ := exists_of_bind_eq_ok h
  obtain ⟨⟨⟨length, format⟩, last⟩, hinitial, h⟩ := exists_of_bind_eq_ok h
  obtain ⟨hfits, hbytes⟩ := Reader.bytes_of_initialLength (LineError.ofRead_eq_ok.mp hinitial)
  dsimp only at h
  split_ifs at h with hlt
  obtain ⟨⟨taken, rest⟩, htake, h⟩ := exists_of_bind_eq_ok h
  cases h
  have hread := LineError.ofRead_eq_ok.mp htake
  unfold Reader.take at hread
  split_ifs at hread with hle
  cases hread
  rw [hbytes, List.length_append, DwarfFormat.length_lengthBytes] at hle
  have hbody : (last.rest.take length).length = length :=
    List.length_take_of_le (Nat.le_of_add_le_add_left hle)
  refine ⟨format, last.rest.take length, ?_, hbody.trans_le hfits⟩
  rw [DwarfFormat.frame, hbody, hbytes, List.take_append, DwarfFormat.length_lengthBytes,
    Nat.add_sub_cancel_left, List.take_of_length_le]
  rw [DwarfFormat.length_lengthBytes]
  exact Nat.le_add_right _ _

namespace LineTable

/-- A table is read off its own unit and off nothing else: what stands before and after the unit
changes neither the table nor why there is none, and the bytes that the table keeps for its
operations are the unit's. -/
theorem parse_surrounded {order : ByteOrder} {unit : List UInt8} {length : ℕ}
    {format : DwarfFormat} {last : Cursor}
    (hdeclares : Reader.initialLength order (Cursor.start unit) = .ok ((length, format), last))
    (hexact : format.lengthSize + length = unit.length) (context : UnitContext)
    (before after : List UInt8) :
    parse order (before ++ unit ++ after) before.length context = parse order unit 0 context ∧
      ∀ table, parse order unit 0 context = .ok table → table.program.bytes = unit := by
  obtain ⟨hunit, hfits⟩ := DwarfFormat.eq_frame hdeclares hexact
  have hfound := @unitBytes_frame_eq order _ _ hfits
  rw [← hunit] at hfound
  have halone := hfound [] []
  rw [List.nil_append, List.append_nil, List.length_nil] at halone
  constructor
  · unfold parse
    rw [hfound, halone]
  · intro table htable
    obtain ⟨hbytes, -⟩ := read_of_parse htable
    rw [halone] at hbytes
    split_ifs at hbytes
    cases hbytes
    rfl

/-- A unit between other bytes, some of which would go on with its program. -/
theorem parse_between_bytes :
    ∃ table, parse .little
        ([7, 7, 7] ++ [26, 0, 0, 0, 2, 0, 8, 0, 0, 0, 1, 1, 0, 1, 2, 0, 0, 0,
          0, 6, 3, 97, 0, 0, 0, 0, 1, 0, 1, 1] ++ [0, 1, 1]) 3
        { compDir := "/", name := "u" } = .ok table ∧
      table.size = 30 ∧ table.trace.rows.length = 2 := by
  have hdeclares : Reader.initialLength .little (Cursor.start
      [26, 0, 0, 0, 2, 0, 8, 0, 0, 0, 1, 1, 0, 1, 2, 0, 0, 0,
        0, 6, 3, 97, 0, 0, 0, 0, 1, 0, 1, 1]) =
      .ok ((26, .dwarf32), ⟨4, [2, 0, 8, 0, 0, 0, 1, 1, 0, 1, 2, 0, 0, 0,
        0, 6, 3, 97, 0, 0, 0, 0, 1, 0, 1, 1]⟩) := by
    decide +kernel
  have hrows : (parse .little [26, 0, 0, 0, 2, 0, 8, 0, 0, 0, 1, 1, 0, 1, 2, 0, 0, 0,
      0, 6, 3, 97, 0, 0, 0, 0, 1, 0, 1, 1] 0 { compDir := "/", name := "u" }).map
        (fun table => table.trace.rows.length) = .ok 2 := by
    decide +kernel
  have hsame := parse_surrounded hdeclares rfl { compDir := "/", name := "u" } [7, 7, 7] [0, 1, 1]
  obtain ⟨table, hparse, hrows⟩ := exists_of_map_eq_ok hrows
  refine ⟨table, hsame.1.trans hparse, ?_, hrows⟩
  rw [size, LineProgram.size, hsame.2 table hparse]
  rfl

end LineTable
end DwarfLines
