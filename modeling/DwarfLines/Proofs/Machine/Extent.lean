import Mathlib
import DwarfLines.Proofs.Machine.SharedFiles

/-!
# How far an instruction extends

Where an instruction ends can be told from its bytes without running it. The number of bytes that a
LEB128 number takes is told by their high bits, a standard opcode takes the operand that belongs to
it, and an extended instruction says how long it is. `MachineState.offset_of_step` says that a
step which succeeds ends there.
-/

namespace DwarfLines

namespace Leb128

/-- How many bytes the number takes that some bytes begin with. All of them but the last have the
high bit set. -/
def size (bytes : List UInt8) : ℕ := (bytes.takeWhile (128 ≤ ·.toNat)).length + 1

/-- The unsigned number that some bytes begin with, seven bits a byte, lowest first. -/
def number (bytes : List UInt8) : ℕ :=
  Nat.ofDigits 128 ((bytes.take (size bytes)).map (·.toNat % 128))

theorem size_cons_of_lt {b : UInt8} (h : b.toNat < 128) (rest : List UInt8) :
    size (b :: rest) = 1 := by
  simp [size, h]

theorem size_cons_of_le {b : UInt8} (h : 128 ≤ b.toNat) (rest : List UInt8) :
    size (b :: rest) = size rest + 1 := by
  simp [size, h]

theorem number_cons_of_lt {b : UInt8} (h : b.toNat < 128) (rest : List UInt8) :
    number (b :: rest) = b.toNat := by
  simp [number, size_cons_of_lt h, Nat.mod_eq_of_lt h]

theorem number_cons_of_le {b : UInt8} (h : 128 ≤ b.toNat) (rest : List UInt8) :
    number (b :: rest) = b.toNat - 128 + 128 * number rest := by
  have hlow : b.toNat % 128 = b.toNat - 128 := by
    have hbyte := b.toNat_lt
    omega
  simp [number, size_cons_of_le h, Nat.ofDigits_cons, hlow]

/-- What is read is the number that stands there, it fits the bits that are left, and the bytes
passed are its own. -/
theorem unsignedFrom_eq_ok {shift offset n : ℕ} {bytes : List UInt8} {last : Cursor}
    (h : unsignedFrom shift offset bytes = .ok (n, last)) (h7 : 7 ∣ shift) (hshift : shift ≤ 63) :
    n = number bytes ∧ n < 2 ^ (64 - shift) ∧ last.offset = offset + size bytes := by
  induction bytes generalizing shift offset n with
  | nil => cases h
  | cons b rest ih =>
    simp only [unsignedFrom] at h
    split_ifs at h with hbad hlast
    · cases h
      refine ⟨(number_cons_of_lt hlast rest).symm, ?_, by rw [size_cons_of_lt hlast]⟩
      by_cases htop : shift = 63
      · -- The last of the ten bytes has one bit to give.
        subst htop
        have hbit : b = 0 ∨ b = 1 := by
          by_contra hnot
          rw [not_or] at hnot
          exact hbad ⟨rfl, hnot.1, hnot.2⟩
        rcases hbit with rfl | rfl <;> decide
      · have hpow : 2 ^ 7 ≤ 2 ^ (64 - shift) := Nat.pow_le_pow_right (by decide) (by omega)
        omega
    · have hshort : shift ≠ 63 := by
        rintro rfl
        refine hbad ⟨rfl, ?_, ?_⟩ <;> rintro rfl <;> exact hlast (by decide)
      have hle : 128 ≤ b.toNat := Nat.not_lt.mp hlast
      cases hmore : unsignedFrom (shift + 7) (offset + 1) rest with
      | error e => simp [hmore] at h
      | ok found =>
        obtain ⟨high, behind⟩ := found
        simp only [hmore, Except.ok.injEq, Prod.mk.injEq] at h
        obtain ⟨rfl, rfl⟩ := h
        obtain ⟨hnumber, hbound, hoffset⟩ := ih hmore (by omega) (by omega)
        have hbyte := b.toNat_lt
        have hpow : 2 ^ (64 - shift) = 128 * 2 ^ (64 - (shift + 7)) := by
          rw [show 64 - shift = 7 + (64 - (shift + 7)) by omega, Nat.pow_add]
        rw [number_cons_of_le hle, size_cons_of_le hle, hnumber, hpow]
        rw [hnumber] at hbound
        exact ⟨rfl, by omega, by omega⟩

theorem offset_of_signedFrom {shift offset : ℕ} {n : ℤ} {bytes : List UInt8} {last : Cursor}
    (h : signedFrom shift offset bytes = .ok (n, last)) : last.offset = offset + size bytes := by
  induction bytes generalizing shift offset n with
  | nil => cases h
  | cons b rest ih =>
    simp only [signedFrom] at h
    split at h
    · cases h
    · by_cases hlast : b.toNat < 128
      · rw [if_pos hlast] at h
        cases h
        rw [size_cons_of_lt hlast]
      · rw [if_neg hlast] at h
        cases hmore : signedFrom (shift + 7) (offset + 1) rest with
        | error e => simp [hmore] at h
        | ok found =>
          obtain ⟨high, behind⟩ := found
          simp only [hmore, Except.ok.injEq, Prod.mk.injEq] at h
          obtain ⟨-, rfl⟩ := h
          rw [size_cons_of_le (Nat.not_lt.mp hlast), ih hmore]
          omega

end Leb128

namespace Reader

variable {ε α β : Type}

/-- A reader takes as many bytes as their contents say. -/
def Sized (reader : Reader ε α) (size : List UInt8 → ℕ) : Prop :=
  ∀ ⦃c a d⦄, reader c = .ok (a, d) → d.offset = c.offset + size c.rest

theorem sized_pure (a : α) : (pure a : Reader ε α).Sized fun _ => 0 := by
  intro c b d h
  cases h
  rfl

theorem sized_take (count : ℕ) : (take count).Sized fun _ => count := by
  intro c bytes d h
  unfold take at h
  split_ifs at h
  cases h
  rfl

theorem sized_uleb128 : uleb128.Sized Leb128.size := by
  intro c n d h
  unfold uleb128 at h
  split at h
  · rename_i hread
    cases h
    exact (Leb128.unsignedFrom_eq_ok hread (by decide) (by decide)).2.2
  · cases h

theorem sized_sleb128 : sleb128.Sized Leb128.size := by
  intro c n d h
  unfold sleb128 at h
  split at h
  · rename_i hread
    cases h
    exact Leb128.offset_of_signedFrom hread
  · cases h

variable {size : List UInt8 → ℕ}

theorem Sized.bind_pure {reader : Reader ε α} (h : reader.Sized size) (f : α → β) :
    (reader >>= fun a => (pure (f a) : Reader ε β)).Sized size := by
  intro c b e hread
  obtain ⟨a, d, hvalue, hpure⟩ := bind_eq_ok.1 hread
  cases hpure
  exact h hvalue

theorem Sized.lift {reader : Reader ReadError α} (h : reader.Sized size) :
    (liftM reader : Reader LineError α).Sized size :=
  fun _ _ _ hread => h (lift_eq_ok.1 hread)

theorem sized_skip (count : ℕ) : (skip count).Sized fun _ => count :=
  (sized_take count).bind_pure _

theorem sized_uint16 (order : ByteOrder) : (uint16 order).Sized fun _ => 2 :=
  ((sized_take 2).bind_pure _).bind_pure _

theorem toNat_of_uleb128 {c d : Cursor} {n : UInt64} (h : uleb128 c = .ok (n, d)) :
    n.toNat = Leb128.number c.rest := by
  unfold uleb128 at h
  split at h
  · rename_i hread
    cases h
    obtain ⟨hnumber, hbound, -⟩ := Leb128.unsignedFrom_eq_ok hread (by decide) (by decide)
    rw [UInt64.toNat_ofNat', Nat.mod_eq_of_lt hbound, hnumber]
  · cases h

end Reader

/-- How many bytes the operand of a standard opcode takes that some bytes begin with. -/
def StandardOpcode.operandSize (bytes : List UInt8) : StandardOpcode → ℕ
  | advancePc | advanceLine | setFile | setColumn | setIsa => Leb128.size bytes
  | fixedAdvancePc => 2
  | copy | negateStmt | setBasicBlock | constAddPc | setPrologueEnd | setEpilogueBegin => 0

namespace Instruction

/-- How many bytes the instruction takes that some bytes begin with. A special opcode stands alone,
a standard opcode is followed by its operand, and an extended instruction by the length that it
declares and as many bytes. -/
def extent (parameters : Parameters) : List UInt8 → ℕ
  | [] => 0
  | opcode :: rest =>
    if parameters.opcodeBase ≤ opcode then
      1
    else if opcode = 0 then
      1 + Leb128.size rest + Leb128.number rest
    else
      1 + ((StandardOpcode.ofCode? opcode).map (·.operandSize rest)).getD 0

theorem sized_readStandard (parameters : Parameters) (opcode : UInt8) :
    (readStandard parameters opcode).Sized fun bytes =>
      ((StandardOpcode.ofCode? opcode).map (·.operandSize bytes)).getD 0 := by
  have hnumber := Reader.sized_uleb128.lift
  have hsigned := Reader.sized_sleb128.lift
  have hfixed := (Reader.sized_uint16 parameters.order).lift
  unfold readStandard
  rcases StandardOpcode.ofCode? opcode with _ | known
  · intro c a d h
    cases h
  · cases known with
    | advancePc | setFile | setColumn | setIsa => exact hnumber.bind_pure _
    | advanceLine => exact hsigned.bind_pure _
    | fixedAdvancePc => exact hfixed.bind_pure _
    | _ => exact Reader.sized_pure _

end Instruction

namespace Decoded

variable {parameters : Parameters}

theorem exists_declaredEnd {c operandsEnd : Cursor} {decoded : Decoded}
    (h : readExtended parameters c = .ok (decoded, operandsEnd)) :
    ∃ opcode, decoded.declaredEnd =
      some ⟨opcode, c.offset + Leb128.size c.rest + Leb128.number c.rest⟩ := by
  obtain ⟨length, behind, hlength, h⟩ := Reader.bind_eq_ok.1 h
  obtain ⟨offset, _, hoffset, h⟩ := Reader.bind_eq_ok.1 h
  cases hoffset
  have hread := Reader.lift_eq_ok.1 hlength
  split_ifs at h
  · obtain ⟨opcode, _, -, h⟩ := Reader.bind_eq_ok.1 h
    obtain ⟨instruction, _, -, h⟩ := Reader.bind_eq_ok.1 h
    cases h
    exact ⟨opcode, by rw [Reader.sized_uleb128 hread, Reader.toNat_of_uleb128 hread]⟩
  · cases h

theorem offset_of_close {decoded : Decoded} {declared : DeclaredEnd} {c last : Cursor}
    (hdeclared : decoded.declaredEnd = some declared) (h : decoded.close c = .ok ((), last)) :
    last.offset = declared.offset := by
  unfold close at h
  rw [hdeclared] at h
  obtain ⟨here, _, hhere, h⟩ := Reader.bind_eq_ok.1 h
  cases hhere
  split_ifs at h with hover
  · cases h
  · obtain ⟨here, _, hhere, h⟩ := Reader.bind_eq_ok.1 h
    cases hhere
    rw [if_neg hover] at h
    have hskip := Reader.sized_skip _ (Reader.lift_eq_ok.1 h)
    dsimp only at hskip
    omega

/-- An instruction that is read and closed ends where its bytes say. -/
theorem offset_of_read_close {c operandsEnd last : Cursor} {decoded : Decoded}
    (hread : Decoded.read parameters c = .ok (decoded, operandsEnd))
    (hclose : decoded.close operandsEnd = .ok ((), last)) :
    last.offset = c.offset + Instruction.extent parameters c.rest := by
  obtain ⟨offset, _ | ⟨opcode, rest⟩⟩ := c
  · cases hread
  obtain ⟨first, _, hfirst, hread⟩ := Reader.bind_eq_ok.1 hread
  obtain ⟨rfl, rfl⟩ : opcode = first ∧ _ = _ := by
    simpa [Reader.byte] using Reader.lift_eq_ok.1 hfirst
  simp only [Instruction.extent]
  split_ifs at hread ⊢ with hspecial hextended
  · cases hread
    cases hclose
    rfl
  · obtain ⟨_, hdeclared⟩ := exists_declaredEnd hread
    rw [offset_of_close hdeclared hclose]
    dsimp only
    omega
  · obtain ⟨instruction, _, hstandard, hread⟩ := Reader.bind_eq_ok.1 hread
    cases hread
    cases hclose
    have hsize := Instruction.sized_readStandard parameters opcode hstandard
    dsimp only at hsize
    omega

end Decoded

theorem MachineState.offset_of_step {parameters : Parameters} {state next : MachineState}
    {c last : Cursor} {row : Option Registers}
    (h : step parameters state c = (next, .ok (row, last))) :
    last.offset = c.offset + Instruction.extent parameters c.rest := by
  obtain ⟨decoded, operandsEnd, hread, -, hclose⟩ := (step_eq_ok parameters).mp h
  exact Decoded.offset_of_read_close hread hclose

end DwarfLines
