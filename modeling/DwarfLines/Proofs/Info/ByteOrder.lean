import Mathlib
import DwarfLines.Info.Unit
import DwarfLines.Proofs.Bytes.Gives
import DwarfLines.Proofs.Dwarf.FormReading

/-!
# The byte order of debug information

The version of a unit is a number of two bytes of which only the less significant one is not zero,
and the escape that announces a 64-bit length reads the same from either end. So a unit that can be
read tells the byte order it is written in, and units that are found in one section with two byte
orders were found with the same.
-/

namespace DwarfLines

theorem DwarfFormat.take_lengthBytes {order : ByteOrder} {format : DwarfFormat} {length : ℕ}
    (hfits : length ≤ format.maxLength) :
    (format.lengthBytes order length).take 4 = [255, 255, 255, 255] ↔ format = .dwarf64 := by
  cases format with
  | dwarf64 => cases order <;> simp [lengthBytes, ByteOrder.bytes, ByteOrder.littleBytes]
  | dwarf32 =>
    simp only [lengthBytes, reduceCtorEq, iff_false]
    intro hescape
    rw [List.take_of_length_le (by simp)] at hescape
    replace hfits : length ≤ 0xffffffef := hfits
    have hvalue := order.value_bytes (show length < 256 ^ 4 by omega)
    rw [hescape] at hvalue
    cases order <;> simp [ByteOrder.value, ByteOrder.littleValue] at hvalue <;> omega

/-- A length tells its format in either byte order. -/
theorem DwarfFormat.eq_of_lengthBytes {order other : ByteOrder} {format format' : DwarfFormat}
    {length length' : ℕ} {rest rest' : List UInt8} (hfits : length ≤ format.maxLength)
    (hfits' : length' ≤ format'.maxLength)
    (h : format.lengthBytes order length ++ rest = format'.lengthBytes other length' ++ rest') :
    format = format' ∧ rest = rest' := by
  have htake := congrArg (List.take 4) h
  have hle (format : DwarfFormat) (order : ByteOrder) (length : ℕ) :
      4 ≤ (format.lengthBytes order length).length := by
    rw [length_lengthBytes]
    cases format <;> decide
  rw [List.take_append_of_le_length (hle _ _ _), List.take_append_of_le_length (hle _ _ _)]
    at htake
  have hsame : format = .dwarf64 ↔ format' = .dwarf64 := by
    rw [← take_lengthBytes hfits, ← take_lengthBytes hfits', htake]
  obtain rfl : format = format' := by cases format <;> cases format' <;> simp_all
  refine ⟨rfl, (List.append_inj h ?_).2⟩
  rw [length_lengthBytes, length_lengthBytes]

theorem Reader.append_of_take {count : ℕ} {c d : Cursor} {bytes : List UInt8}
    (h : take count c = .ok (bytes, d)) : c.rest = bytes ++ d.rest := by
  unfold take at h
  split_ifs at h
  cases h
  exact (List.take_append_drop count c.rest).symm

theorem Reader.take_of_uint16 {order : ByteOrder} {c d : Cursor} {n : UInt16}
    (h : uint16 order c = .ok (n, d)) : c.rest.take 2 = order.bytes 2 n.toNat := by
  obtain ⟨value, last, hvalue, hn⟩ := bind_eq_ok.1 h
  cases hn
  obtain ⟨hlt, hbytes⟩ := bytes_of_fixed hvalue
  rw [UInt16.toNat_ofNat', Nat.mod_eq_of_lt (show value < 2 ^ 16 from hlt), hbytes,
    List.take_left' (order.length_bytes 2 _)]

/-- A number below 256 that is not zero is written with the same two bytes in one order only. -/
theorem ByteOrder.eq_of_bytes {order other : ByteOrder} {n n' : ℕ} (hn : 0 < n ∧ n < 256)
    (hn' : 0 < n' ∧ n' < 256) (h : order.bytes 2 n = other.bytes 2 n') : order = other := by
  have hzero {m : ℕ} (hm : 0 < m ∧ m < 256) : UInt8.ofNat m ≠ 0 := by
    rw [ne_eq, ← UInt8.toNat_inj, UInt8.toNat_ofNat', Nat.mod_eq_of_lt hm.2]
    exact Nat.ne_of_gt hm.1
  have hhigh {m : ℕ} (hm : m < 256) : UInt8.ofNat (m / 256) = 0 := by
    rw [Nat.div_eq_of_lt hm]
    rfl
  cases order <;> cases other
  · rfl
  · simp [bytes, littleBytes, hhigh hn'.2, hzero hn] at h
  · simp [bytes, littleBytes, hhigh hn.2, (hzero hn').symm] at h
  · rfl

namespace UnitHeader

theorem version_of_read {order : ByteOrder} {format : DwarfFormat} {c d : Cursor}
    {header : UnitHeader} (h : read order format c = .ok (header, d)) :
    ∃ version : UInt16, 2 ≤ version.toNat ∧ version.toNat ≤ 5 ∧
      c.rest.take 2 = order.bytes 2 version.toNat := by
  obtain ⟨version, next, hversion, hrest⟩ := Reader.bind_eq_ok.1 h
  split_ifs at hrest with hknown
  · cases hrest
  all_goals
    simp only [not_or, UInt16.not_lt] at hknown
    exact ⟨version, hknown.1, hknown.2, Reader.take_of_uint16 hversion⟩

end UnitHeader

namespace InfoUnit

theorem version_of_read {order : ByteOrder} {c d : Cursor} {unit : InfoUnit}
    (h : read order c = .ok (unit, d)) :
    ∃ (format : DwarfFormat) (length : ℕ) (rest : List UInt8) (version : UInt16),
      length ≤ format.maxLength ∧ c.rest = format.lengthBytes order length ++ rest ∧
      2 ≤ version.toNat ∧ version.toNat ≤ 5 ∧ rest.take 2 = order.bytes 2 version.toNat := by
  obtain ⟨⟨length, format⟩, next, hlength, h⟩ := Reader.bind_eq_ok.1 h
  obtain ⟨body, last, hbody, h⟩ := Reader.bind_eq_ok.1 h
  obtain ⟨⟨header, entries⟩, end_, hheader, -⟩ := Reader.bind_eq_ok.1 h
  obtain ⟨hread, -⟩ := Reader.lift_except_eq_ok hheader
  obtain ⟨hfits, hbytes⟩ := Reader.bytes_of_initialLength hlength
  obtain ⟨version, hlow, hhigh, hversion⟩ := UnitHeader.version_of_read hread
  refine ⟨format, length, next.rest, version, hfits, hbytes, hlow, hhigh, ?_⟩
  replace hversion : body.take 2 = order.bytes 2 version.toNat := hversion
  have htwo : 2 ≤ body.length := by
    have hlength := congrArg List.length hversion
    rw [List.length_take, ByteOrder.length_bytes] at hlength
    omega
  rw [Reader.append_of_take hbody, List.take_append_of_le_length htwo]
  exact hversion

/-- A unit can be read in one byte order only. -/
theorem order_eq_of_read {order other : ByteOrder} {c d d' : Cursor} {unit unit' : InfoUnit}
    (h : read order c = .ok (unit, d)) (h' : read other c = .ok (unit', d')) : order = other := by
  obtain ⟨format, length, rest, version, hfits, hbytes, hlow, hhigh, htake⟩ := version_of_read h
  obtain ⟨format', length', rest', version', hfits', hbytes', hlow', hhigh', htake'⟩ :=
    version_of_read h'
  obtain ⟨-, rfl⟩ := DwarfFormat.eq_of_lengthBytes hfits hfits' (hbytes.symm.trans hbytes')
  exact ByteOrder.eq_of_bytes ⟨by omega, by omega⟩ ⟨by omega, by omega⟩ (htake.symm.trans htake')

end InfoUnit

namespace InfoSections

theorem exists_read_of_units {sections : InfoSections} {units : List LineUnit}
    (h : sections.units = .ok units) (hsome : units ≠ []) :
    ∃ unit next, InfoUnit.read sections.order (Cursor.start sections.info) = .ok (unit, next) := by
  unfold InfoSections.units unitsFrom at h
  split_ifs at h
  · cases h
    exact absurd rfl hsome
  · split at h
    · cases h
    · rename_i unit next hread
      exact ⟨unit, next, hread⟩

/-- Units are found in a section with one byte order only. -/
theorem order_eq_of_units {sections other : InfoSections} {units units' : List LineUnit}
    (hinfo : sections.info = other.info) (h : sections.units = .ok units)
    (h' : other.units = .ok units') (hsome : units ≠ []) (hsome' : units' ≠ []) :
    sections.order = other.order := by
  obtain ⟨unit, next, hread⟩ := exists_read_of_units h hsome
  obtain ⟨unit', next', hread'⟩ := exists_read_of_units h' hsome'
  rw [← hinfo] at hread'
  exact InfoUnit.order_eq_of_read hread hread'

end InfoSections
end DwarfLines
