import Mathlib
import DwarfLines.Command.Run
import DwarfLines.Proofs.Text.Numerals

/-!
# Which arguments are addresses

An address is written in decimal digits, or in hexadecimal ones behind `0x` or `0X`. Reading accepts
exactly the addresses that fit sixty-four bits, and both ways in which an address is written are
read back as that address.
-/

namespace DwarfLines
namespace Address

/-- A text is a decimal numeral, or a hexadecimal one behind its mark. -/
inductive Denotes : List Char → ℕ → Prop
  | decimal {cs : List Char} {n : ℕ} (h : Numeral.Denotes 10 cs n) : Denotes cs n
  | hexadecimal {x : Char} {cs : List Char} {n : ℕ} (hx : x = 'x' ∨ x = 'X')
    (h : Numeral.Denotes 16 cs n) : Denotes ('0' :: x :: cs) n

theorem hexDigits?_eq_some_iff {cs digits : List Char} :
    hexDigits? cs = some digits ↔ ∃ x, (x = 'x' ∨ x = 'X') ∧ cs = '0' :: x :: digits := by
  constructor
  · intro h
    unfold hexDigits? at h
    split at h
    · cases h
      exact ⟨'x', .inl rfl, rfl⟩
    · cases h
      exact ⟨'X', .inr rfl, rfl⟩
    · cases h
  · rintro ⟨x, rfl | rfl, rfl⟩ <;> rfl

theorem not_denotes_marked {x : Char} (hx : x = 'x' ∨ x = 'X') (cs : List Char) (n : ℕ) :
    ¬ Numeral.Denotes 10 ('0' :: x :: cs) n := by
  rw [← Numeral.digits?_dropPlus_eq_some_iff (by decide)]
  rcases hx with rfl | rfl <;> exact nofun

/-- Reading an address accepts the texts of those below `2 ^ 64`. -/
theorem parse?_eq_some_iff {text : String} {address : UInt64} :
    parse? text = some address ↔ Denotes text.toList address.toNat := by
  unfold parse?
  cases hmark : hexDigits? text.toList with
  | some digits =>
    obtain ⟨x, hx, htext⟩ := hexDigits?_eq_some_iff.mp hmark
    rw [Numeral.word?_eq_some_iff (by decide), htext]
    constructor
    · exact .hexadecimal hx
    · intro h
      cases h with
      | decimal h => exact absurd h (not_denotes_marked hx digits _)
      | hexadecimal _ h => exact h
  | none =>
    rw [Numeral.word?_eq_some_iff (by decide)]
    constructor
    · exact .decimal
    · intro h
      generalize text.toList = cs at *
      cases h with
      | decimal h => exact h
      | @hexadecimal x digits _ hx _ =>
        have hdigits : hexDigits? ('0' :: x :: digits) = some digits :=
          hexDigits?_eq_some_iff.mpr ⟨x, hx, rfl⟩
        rw [hmark] at hdigits
        cases hdigits

theorem perform_require (text : String) :
    (require text).perform.1 =
      match parse? text with
      | some address => .ok address
      | none => .error (.invalidAddress text) := by
  unfold require
  cases parse? text <;> rfl

theorem parse?_eq_none_iff {text : String} :
    parse? text = none ↔ ∀ n, Denotes text.toList n → 2 ^ 64 ≤ n := by
  rw [Option.eq_none_iff_forall_ne_some]
  constructor
  · intro h n hn
    by_contra hlt
    have hword : (UInt64.ofNat n).toNat = n := UInt64.toNat_ofNat_of_lt' (Nat.lt_of_not_le hlt)
    exact h (UInt64.ofNat n) (parse?_eq_some_iff.mpr (hword.symm ▸ hn))
  · intro h address haddress
    have hle := h _ (parse?_eq_some_iff.mp haddress)
    exact absurd address.toNat_lt (by omega)

example : parse? "0X+0fFFFffffffffffff" = some 0xffffffffffffffff ∧
    parse? "18446744073709551616" = none ∧ parse? "+0x1" = none := by
  decide +kernel

theorem parse?_decimal (address : UInt64) :
    parse? (Numeral.decimal address.toNat) = some address :=
  parse?_eq_some_iff.mpr (.decimal (Numeral.denotes_decimal _))

theorem parse?_hex (address : UInt64) : parse? (Numeral.hex address.toNat) = some address := by
  have hmark : (Numeral.hex address.toNat).toList =
      '0' :: 'x' :: Nat.toDigits 16 address.toNat := by
    simp [Numeral.hex]
  rw [parse?_eq_some_iff, hmark]
  exact .hexadecimal (.inl rfl)
    (.unsigned (Numeral.spells_toDigits (by decide) (by decide) address.toNat))

/-- An argument is taken as an address exactly if it denotes a number below `2 ^ 64`, in decimal or,
behind a mark, in hexadecimal digits; it is then that number, and any other argument is refused with
its text as it is. So an address can be given in decimal digits, and as a lookup shows it. -/
theorem require_denoted (text : String) (address : UInt64) :
    ((require text).perform.1 = .ok address ↔ Denotes text.toList address.toNat) ∧
    ((require text).perform.1 = .error (.invalidAddress text) ↔
      ∀ n, Denotes text.toList n → 2 ^ 64 ≤ n) ∧
    (require (Numeral.decimal address.toNat)).perform.1 = .ok address ∧
    (require (Numeral.hex address.toNat)).perform.1 = .ok address ∧
    ∀ found, ∃ rest, lookupLine address found = Numeral.hex address.toNat ++ (": " ++ rest) := by
  simp only [perform_require, parse?_decimal, parse?_hex]
  refine ⟨?_, ?_, trivial, trivial, fun found => ⟨_, String.append_assoc⟩⟩
  · rw [← parse?_eq_some_iff]
    cases parse? text <;> simp
  · rw [← parse?_eq_none_iff]
    cases parse? text <;> simp

end Address
end DwarfLines
