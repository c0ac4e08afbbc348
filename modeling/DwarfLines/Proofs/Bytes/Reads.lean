import Mathlib
import DwarfLines.Assembly.Lists
import DwarfLines.Bytes.Leb128Lemmas
import DwarfLines.Bytes.OrderLemmas

/-!
# Readers on written bytes

A reader reads some bytes as a value if, begun where they begin, it takes exactly them and gives
the value, whatever comes after. The offset is kept in the statement because some readers give it
or compare with it. Readers that follow each other read bytes that follow each other, so a whole
table is read back piece by piece from the lemmas here.
-/

namespace DwarfLines
namespace Reader

variable {ε α β : Type}

/-- Begun at an offset, a reader takes exactly the given bytes and gives a value. -/
def Reads (reader : Reader ε α) (offset : ℕ) (bytes : List UInt8) (a : α) : Prop :=
  ∀ rest, reader ⟨offset, bytes ++ rest⟩ = .ok (a, ⟨offset + bytes.length, rest⟩)

theorem reads_pure (offset : ℕ) (a : α) : (pure a : Reader ε α).Reads offset [] a :=
  fun _ => rfl

/-- Once a reader has taken its bytes, the next one goes on with its value and the bytes behind. -/
theorem Reads.bind_eq {reader : Reader ε α} {offset : ℕ} {bytes : List UInt8} {a : α}
    (hr : reader.Reads offset bytes a) (next : α → Reader ε β) (rest : List UInt8) :
    (reader >>= next) ⟨offset, bytes ++ rest⟩ = next a ⟨offset + bytes.length, rest⟩ := by
  rw [bind_apply, hr]

theorem Reads.bind {reader : Reader ε α} {next : α → Reader ε β} {offset : ℕ}
    {bytes more : List UInt8} {a : α} {b : β} (hr : reader.Reads offset bytes a)
    (hn : (next a).Reads (offset + bytes.length) more b) :
    (reader >>= next).Reads offset (bytes ++ more) b := by
  intro rest
  rw [List.append_assoc, hr.bind_eq]
  simpa [Nat.add_assoc] using hn rest

theorem Reads.bind_nil {reader : Reader ε α} {next : α → Reader ε β} {offset : ℕ}
    {bytes : List UInt8} {a : α} {b : β} (hr : reader.Reads offset bytes a)
    (hn : (next a).Reads (offset + bytes.length) [] b) :
    (reader >>= next).Reads offset bytes b := by
  simpa using hr.bind hn

theorem Reads.nil_bind {reader : Reader ε α} {next : α → Reader ε β} {offset : ℕ}
    {bytes : List UInt8} {a : α} {b : β} (hr : reader.Reads offset [] a)
    (hn : (next a).Reads offset bytes b) : (reader >>= next).Reads offset bytes b := by
  simpa using hr.bind hn

theorem Reads.bind_pure {reader : Reader ε α} {offset : ℕ} {bytes : List UInt8} {a : α}
    (hr : reader.Reads offset bytes a) (f : α → β) :
    (reader >>= fun x => pure (f x)).Reads offset bytes (f a) :=
  hr.bind_nil (reads_pure _ _)

theorem Reads.map {reader : Reader ε α} {offset : ℕ} {bytes : List UInt8} {a : α}
    (hr : reader.Reads offset bytes a) (f : α → β) :
    (f <$> reader).Reads offset bytes (f a) := by
  rw [map_eq_pure_bind]
  exact hr.bind_pure f

theorem Reads.lift {reader : Reader ReadError α} {offset : ℕ} {bytes : List UInt8} {a : α}
    (hr : reader.Reads offset bytes a) :
    (liftM reader : Reader LineError α).Reads offset bytes a :=
  fun rest => lift_eq_ok.2 (hr rest)

theorem reads_lift_ok (offset : ℕ) (a : α) :
    (liftM (Except.ok a : Except ε α) : Reader ε α).Reads offset [] a :=
  fun _ => rfl

theorem reads_offset (offset : ℕ) : (Reader.offset : Reader ε ℕ).Reads offset [] offset :=
  fun _ => rfl

theorem reads_byte (offset : ℕ) (b : UInt8) : byte.Reads offset [b] b := fun _ => rfl

theorem Reads.byte_bind {next : UInt8 → Reader LineError β} {offset : ℕ} {b : UInt8}
    {more : List UInt8} {a : β} (hn : (next b).Reads (offset + [b].length) more a) :
    (liftM byte >>= next : Reader LineError β).Reads offset (b :: more) a :=
  (reads_byte offset b).lift.bind hn

theorem reads_take (offset : ℕ) (bytes : List UInt8) :
    (take bytes.length).Reads offset bytes bytes := by
  intro rest
  simp [take]

theorem reads_skip (offset : ℕ) (bytes : List UInt8) :
    (skip bytes.length).Reads offset bytes () :=
  (reads_take offset bytes).bind_pure _

theorem reads_fixed (order : ByteOrder) (width : ℕ) {n : ℕ} (offset : ℕ) (h : n < 256 ^ width) :
    (fixed order width).Reads offset (order.bytes width n) n := by
  have taken := reads_take offset (order.bytes width n)
  rw [ByteOrder.length_bytes] at taken
  have value := taken.bind_pure order.value
  rwa [order.value_bytes h] at value

theorem reads_uint16 (order : ByteOrder) (offset : ℕ) (n : UInt16) :
    (uint16 order).Reads offset (order.bytes 2 n.toNat) n := by
  have value := (reads_fixed order 2 offset n.toNat_lt).bind_pure UInt16.ofNat
  rwa [UInt16.ofNat_toNat] at value

theorem reads_address (order : ByteOrder) {size : UInt8} {n : UInt64} (offset : ℕ)
    (hsize : size = 1 ∨ size = 2 ∨ size = 4 ∨ size = 8) (h : n.toNat < 256 ^ size.toNat) :
    (address order size).Reads offset (order.bytes size.toNat n.toNat) n := by
  unfold address
  rw [if_pos hsize]
  have value := (reads_fixed order _ offset h).bind_pure UInt64.ofNat
  rwa [UInt64.ofNat_toNat] at value

theorem reads_uleb128 (offset : ℕ) (n : UInt64) :
    uleb128.Reads offset (Leb128.unsignedBytes n.toNat) n :=
  uleb128_unsignedBytes n offset

theorem reads_sleb128 (offset : ℕ) (n : Int64) :
    sleb128.Reads offset (Leb128.signedBytes n.toInt) n :=
  sleb128_signedBytes n offset

theorem reads_uleb128_ofNat (offset : ℕ) {n : ℕ} (h : n < 2 ^ 64) :
    uleb128.Reads offset (Leb128.unsignedBytes n) (UInt64.ofNat n) := by
  have hn : (UInt64.ofNat n).toNat = n := by simpa using h
  simpa [hn] using reads_uleb128 offset (UInt64.ofNat n)

/-! ### Strings -/

theorem terminatedFrom_append {bytes : List UInt8} (h : 0 ∉ bytes) (offset : ℕ)
    (rest : List UInt8) :
    terminatedFrom offset (bytes ++ 0 :: rest) =
      .ok (bytes, ⟨offset + (bytes.length + 1), rest⟩) := by
  induction bytes generalizing offset with
  | nil => simp [terminatedFrom]
  | cons b bytes ih =>
    simp only [List.mem_cons, not_or] at h
    have hb : b ≠ 0 := fun hb => h.1 hb.symm
    simp only [List.cons_append, terminatedFrom, if_neg hb, ih h.2, List.length_cons]
    rw [show offset + 1 + (bytes.length + 1) = offset + (bytes.length + 1 + 1) by omega]

theorem reads_terminated {bytes : List UInt8} (h : 0 ∉ bytes) (offset : ℕ) :
    terminated.Reads offset (bytes ++ [0]) bytes := by
  intro rest
  simpa [terminated] using terminatedFrom_append h offset rest

/-! ### Lists up to their end -/

section UntilNone

variable {item : Reader ε (Option α)} {consuming : item.Consuming}

theorem untilNone_of_none {c d : Cursor} (h : item c = .ok (none, d)) :
    untilNone item consuming c = .ok ([], d) := by
  rw [untilNone]
  split <;> simp_all

theorem untilNone_of_some {c d : Cursor} {a : α} (h : item c = .ok (some a, d)) :
    untilNone item consuming c = match untilNone item consuming d with
      | .ok (more, last) => .ok (a :: more, last)
      | .error e => .error e := by
  rw [untilNone]
  split
  · simp_all
  · simp_all
  · rename_i hsome
    rw [h] at hsome
    cases hsome
    rfl

theorem Reads.untilNone_nil {offset : ℕ} {bytes : List UInt8} (h : item.Reads offset bytes none) :
    Reads (untilNone item consuming) offset bytes [] :=
  fun rest => untilNone_of_none (h rest)

theorem Reads.untilNone_cons {offset : ℕ} {bytes more : List UInt8} {a : α} {found : List α}
    (h : item.Reads offset bytes (some a))
    (hmore : Reads (untilNone item consuming) (offset + bytes.length) more found) :
    Reads (untilNone item consuming) offset (bytes ++ more) (a :: found) := by
  intro rest
  rw [List.append_assoc, untilNone_of_some (h (more ++ rest)), hmore rest, List.length_append,
    Nat.add_assoc]

/-- Items that follow each other, up to what is read as the end of the list. -/
theorem reads_untilNone {write : α → List UInt8} {final : List UInt8} {items : List α}
    (hitem : ∀ a ∈ items, ∀ offset, item.Reads offset (write a) (some a))
    (hfinal : ∀ offset, item.Reads offset final none) (offset : ℕ) :
    Reads (untilNone item consuming) offset (items.flatMap write ++ final) items := by
  induction items generalizing offset with
  | nil => exact (hfinal offset).untilNone_nil
  | cons a items ih =>
    have hmore := ih (fun b hb => hitem b (List.mem_cons_of_mem a hb))
      (offset + (write a).length)
    rw [List.flatMap_cons, List.append_assoc]
    exact (hitem a List.mem_cons_self offset).untilNone_cons hmore

end UntilNone

end Reader

namespace Utf8

theorem zero_mem_utf8EncodeChar {c : Char} (h : 0 ∈ String.utf8EncodeChar c) :
    c = Char.ofNat 0 := by
  have hc : c.val.toNat < 0xd800 ∨ (0xdfff < c.val.toNat ∧ c.val.toNat < 0x110000) := c.valid
  have key : c.val.toNat = 0 := by
    simp only [String.utf8EncodeChar] at h
    generalize c.val.toNat = v at h hc ⊢
    split_ifs at h <;> simp [← UInt8.toNat_inj] at h <;> omega
  rw [← Char.ofNat_toNat c]
  exact congrArg Char.ofNat key

theorem zero_not_mem_encode {text : String} (h : Char.ofNat 0 ∉ text.toList) :
    0 ∉ encode text := by
  intro hmem
  obtain ⟨c, hc, hzero⟩ := List.mem_flatMap.mp hmem
  exact h (zero_mem_utf8EncodeChar hzero ▸ hc)

end Utf8

namespace Reader

theorem reads_terminatedBytes {text : String} (h : Char.ofNat 0 ∉ text.toList) (offset : ℕ) :
    terminated.Reads offset (terminatedBytes text) (Utf8.encode text) :=
  reads_terminated (Utf8.zero_not_mem_encode h) offset

end Reader
end DwarfLines
