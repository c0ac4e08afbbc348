import Mathlib
import DwarfLines.Dwarf.Writing
import DwarfLines.Proofs.Bytes.Reads

/-!
# Reading lengths, offsets and values of a form

Bytes that stand for a value in a form are read as that value. A string may stand elsewhere, and
then the bytes lead to it through the sections that the form refers to.
-/

namespace DwarfLines

namespace DwarfFormat

theorem offsetCount_eq (format : DwarfFormat) : format.offsetCount = 256 ^ format.wordSize := by
  cases format <;> rfl

theorem length_lengthBytes (format : DwarfFormat) (order : ByteOrder) (length : ℕ) :
    (format.lengthBytes order length).length = format.lengthSize := by
  cases format <;> simp [lengthBytes, lengthSize, ByteOrder.length_bytes]

theorem maxLength_lt (format : DwarfFormat) : format.maxLength < format.offsetCount := by
  cases format <;> decide

end DwarfFormat

namespace Reader

theorem reads_word (order : ByteOrder) (format : DwarfFormat) {n : ℕ} (offset : ℕ)
    (h : n < format.offsetCount) :
    (word order format).Reads offset (order.bytes format.wordSize n) n :=
  reads_fixed order _ offset (format.offsetCount_eq ▸ h)

theorem reads_initialLength (order : ByteOrder) (format : DwarfFormat) {length : ℕ} (offset : ℕ)
    (h : length ≤ format.maxLength) :
    (initialLength order).Reads offset (format.lengthBytes order length) (length, format) := by
  cases format with
  | dwarf32 =>
    simp only [DwarfFormat.maxLength] at h
    have hsmall : length < 0xfffffff0 := by omega
    apply (reads_fixed order 4 offset (by omega)).bind_nil
    simp only [hsmall, if_true]
    exact reads_pure _ _
  | dwarf64 =>
    simp only [DwarfFormat.maxLength] at h
    have hnot : ¬ 0xffffffff < 0xfffffff0 := by decide
    apply (reads_fixed order 4 offset (by decide)).bind
    simp only [hnot, if_true, if_false]
    exact (reads_fixed order 8 _ (by omega)).bind_pure _

/-- What was read as a number stands there as the number is written. -/
theorem bytes_of_fixed {order : ByteOrder} {width n : ℕ} {c d : Cursor}
    (h : fixed order width c = .ok (n, d)) :
    n < 256 ^ width ∧ c.rest = order.bytes width n ++ d.rest := by
  obtain ⟨taken, last, htake, hvalue⟩ := bind_eq_ok.1 h
  cases hvalue
  unfold take at htake
  split_ifs at htake with hle
  cases htake
  have hlength : (c.rest.take width).length = width := List.length_take_of_le hle
  have hlt := order.value_lt (c.rest.take width)
  have hbytes := order.bytes_value (c.rest.take width)
  rw [hlength] at hlt hbytes
  exact ⟨hlt, by rw [hbytes, List.take_append_drop]⟩

theorem bytes_of_initialLength {order : ByteOrder} {length : ℕ} {format : DwarfFormat}
    {c d : Cursor} (h : initialLength order c = .ok ((length, format), d)) :
    length ≤ format.maxLength ∧ c.rest = format.lengthBytes order length ++ d.rest := by
  obtain ⟨first, middle, hfirst, h⟩ := bind_eq_ok.1 h
  obtain ⟨-, hbytes⟩ := bytes_of_fixed hfirst
  split_ifs at h with hsmall hlarge
  · cases h
    exact ⟨Nat.le_of_lt_succ hsmall, hbytes⟩
  · obtain ⟨second, last, hsecond, h⟩ := bind_eq_ok.1 h
    cases h
    obtain ⟨hlt, hrest⟩ := bytes_of_fixed hsecond
    refine ⟨Nat.le_of_lt_succ (by simpa [DwarfFormat.maxLength] using hlt), ?_⟩
    rw [hbytes, hrest, hlarge, DwarfFormat.lengthBytes, List.append_assoc]
  · cases h

end Reader

theorem HoldsString.offset_le {bytes : List UInt8} {offset : ℕ} {text : String}
    (h : HoldsString bytes offset text) : offset ≤ bytes.length := by
  obtain ⟨before, after, rfl, rfl, -⟩ := h
  simp only [List.length_append]
  omega

theorem stringAt_of_holds {bytes : List UInt8} {offset : ℕ} {text : String}
    (h : HoldsString bytes offset text) : stringAt bytes offset = .ok text := by
  have hat := Reader.at?_eq_ok.2 ⟨h.offset_le, rfl⟩
  obtain ⟨before, after, rfl, rfl, hzero⟩ := h
  have hdrop : (before ++ Utf8.encode text ++ 0 :: after).drop before.length =
      terminatedBytes text ++ after := by
    simp [terminatedBytes]
  rw [hdrop] at hat
  unfold stringAt
  rw [hat]
  change (Reader.terminated ⟨before.length, terminatedBytes text ++ after⟩ >>= _) = _
  rw [Reader.reads_terminatedBytes hzero]
  exact congrArg Except.ok (Utf8.decode_encode text)

namespace FormLayout

variable {layout : FormLayout}

theorem stringIn_of_holds {target : StringSection} {offset : ℕ} {text : String}
    (h : layout.Holds target offset text) (form : Form) :
    layout.stringIn target form offset = .ok text := by
  obtain ⟨bytes, hbytes, hholds⟩ := h
  unfold stringIn sectionFor
  rw [hbytes]
  change LineError.ofRead (stringAt bytes offset) = _
  rw [stringAt_of_holds hholds]
  rfl

theorem indexedString_of_holds {index : ℕ} {text : String} (hindex : index < 2 ^ 64)
    (h : layout.HoldsIndexed index text) (form : Form) :
    layout.indexedString form (UInt64.ofNat index) = .ok text := by
  obtain ⟨before, after, offset, bytes, hbytes, rfl, hplace, hlt, hoffset, hholds⟩ := h
  have hword : (UInt64.ofNat index).toNat = index := by simpa using hindex
  have hentry : (UInt64.ofNat index).toNat * layout.format.wordSize +
      layout.strings.strOffsetsBase = before.length := by
    rw [hword, hplace, Nat.add_comm]
  have hat : Cursor.at? (before ++ layout.order.bytes layout.format.wordSize offset ++ after)
      before.length =
        .ok ⟨before.length, layout.order.bytes layout.format.wordSize offset ++ after⟩ := by
    refine Reader.at?_eq_ok.2 ⟨by simp, ?_⟩
    rw [List.append_assoc, List.drop_left]
  have hread := Reader.reads_word layout.order layout.format before.length hoffset after
  unfold indexedString sectionFor StringSections.get?
  rw [hbytes]
  dsimp only
  change (if _ then _ else _) = _
  rw [hentry, if_pos hlt, hat]
  change (LineError.ofRead (Reader.word layout.order layout.format _) >>= _) = _
  rw [hread]
  exact stringIn_of_holds hholds form

theorem reads_fixedNumber (order : ByteOrder) {width : ℕ} {n : UInt64} (offset : ℕ)
    (h : n.toNat < 256 ^ width) :
    (liftM (Reader.fixed order width) >>= fun found => pure (UInt64.ofNat found) :
      Reader LineError UInt64).Reads offset (order.bytes width n.toNat) n := by
  have hread := (Reader.reads_fixed order width offset h).lift.bind_pure UInt64.ofNat
  rwa [UInt64.ofNat_toNat] at hread

/-- Bytes that stand for a number are read as the number. -/
theorem reads_unsigned {form : Form} {n : UInt64} {bytes : List UInt8}
    (h : layout.WritesNumber form n bytes) (offset : ℕ) :
    (layout.unsigned form.code).Reads offset bytes n := by
  unfold unsigned
  rw [Form.ofCode?_code]
  cases h with
  | data1 hlt => exact reads_fixedNumber layout.order offset hlt
  | data2 hlt => exact reads_fixedNumber layout.order offset hlt
  | data4 hlt => exact reads_fixedNumber layout.order offset hlt
  | data8 => exact reads_fixedNumber layout.order offset n.toNat_lt
  | udata => exact (Reader.reads_uleb128 offset n).lift

theorem reads_stringIn {target : StringSection} {form : Form} {place : ℕ} {text : String}
    (hlt : place < layout.format.offsetCount) (h : layout.Holds target place text) (offset : ℕ) :
    (liftM (Reader.word layout.order layout.format) >>= fun found =>
        liftM (layout.stringIn target form found) : Reader LineError String).Reads offset
      (layout.order.bytes layout.format.wordSize place) text := by
  apply (Reader.reads_word layout.order layout.format offset hlt).lift.bind_nil
  rw [stringIn_of_holds h]
  exact Reader.reads_lift_ok _ _

theorem reads_indexed {form : Form} {index width : ℕ} {text : String}
    (hwidth : index < 256 ^ width) (hindex : index < 2 ^ 64) (h : layout.HoldsIndexed index text)
    (offset : ℕ) :
    (liftM (Reader.fixed layout.order width) >>= fun found =>
        liftM (layout.indexedString form (UInt64.ofNat found)) : Reader LineError String).Reads
      offset (layout.order.bytes width index) text := by
  apply (Reader.reads_fixed layout.order width offset hwidth).lift.bind_nil
  rw [indexedString_of_holds hindex h]
  exact Reader.reads_lift_ok _ _

theorem reads_string {form : Form} {text : String} {bytes : List UInt8}
    (h : layout.WritesString form text bytes) (offset : ℕ) :
    (layout.string form.code).Reads offset bytes text := by
  unfold string
  rw [Form.ofCode?_code]
  cases h with
  | inline hzero =>
    have hread := (Reader.reads_terminatedBytes hzero offset).lift.bind_pure Utf8.decode
    rwa [Utf8.decode_encode] at hread
  | strp hlt hholds => exact reads_stringIn hlt hholds offset
  | lineStrp hlt hholds => exact reads_stringIn hlt hholds offset
  | strpSup hlt hholds => exact reads_stringIn hlt hholds offset
  | strx hlt hholds =>
    apply (Reader.reads_uleb128_ofNat offset hlt).lift.bind_nil
    rw [indexedString_of_holds hlt hholds]
    exact Reader.reads_lift_ok _ _
  | strx1 hlt hholds => exact reads_indexed hlt (by omega) hholds offset
  | strx2 hlt hholds => exact reads_indexed hlt (by omega) hholds offset
  | strx4 hlt hholds => exact reads_indexed hlt (by omega) hholds offset

end FormLayout
end DwarfLines
