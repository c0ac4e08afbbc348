/-!
# Lossy UTF-8

Paths are stored as bytes and shown as text. Well-formed UTF-8 is decoded; of anything else, each
longest stretch that could still have begun a character becomes one replacement character.
`decode_encode` says that text survives being written and read.
-/

namespace DwarfLines
namespace Utf8

/-- What stands for bytes that are not text. -/
def replacement : Char := Char.ofNat 0xfffd

def isContinuation (b : UInt8) : Bool := 0x80 ≤ b && b ≤ 0xbf

/-- The first byte of a two-byte character. -/
def leadsTwo (b : UInt8) : Bool := 0xc2 ≤ b && b ≤ 0xdf

/-- The first two bytes of a three-byte character: no longer form than needed, no surrogate. -/
def leadsThree (b₀ b₁ : UInt8) : Bool :=
  (b₀ == 0xe0 && 0xa0 ≤ b₁ && b₁ ≤ 0xbf) ||
  (0xe1 ≤ b₀ && b₀ ≤ 0xec && isContinuation b₁) ||
  (b₀ == 0xed && 0x80 ≤ b₁ && b₁ ≤ 0x9f) ||
  (0xee ≤ b₀ && b₀ ≤ 0xef && isContinuation b₁)

/-- The first two bytes of a four-byte character: no longer form than needed, within the range. -/
def leadsFour (b₀ b₁ : UInt8) : Bool :=
  (b₀ == 0xf0 && 0x90 ≤ b₁ && b₁ ≤ 0xbf) ||
  (0xf1 ≤ b₀ && b₀ ≤ 0xf3 && isContinuation b₁) ||
  (b₀ == 0xf4 && 0x80 ≤ b₁ && b₁ ≤ 0x8f)

/-- The six payload bits of a following byte. -/
def payload (b : UInt8) : Nat := b.toNat % 64

def twoByteChar (b₀ b₁ : UInt8) : Char :=
  Char.ofNat (b₀.toNat % 32 * 64 + payload b₁)

def threeByteChar (b₀ b₁ b₂ : UInt8) : Char :=
  Char.ofNat (b₀.toNat % 16 * 4096 + payload b₁ * 64 + payload b₂)

def fourByteChar (b₀ b₁ b₂ b₃ : UInt8) : Char :=
  Char.ofNat (b₀.toNat % 8 * 262144 + payload b₁ * 4096 + payload b₂ * 64 + payload b₃)

def decodeFirst (b₀ : UInt8) (rest : List UInt8) : Char × List UInt8 :=
  if b₀ < 0x80 then
    (Char.ofNat b₀.toNat, rest)
  else
    match rest with
    | [] => (replacement, [])
    | b₁ :: rest₁ =>
      if leadsTwo b₀ && isContinuation b₁ then
        (twoByteChar b₀ b₁, rest₁)
      else if leadsThree b₀ b₁ then
        match rest₁ with
        | [] => (replacement, [])
        | b₂ :: rest₂ =>
          if isContinuation b₂ then (threeByteChar b₀ b₁ b₂, rest₂) else (replacement, rest₁)
      else if leadsFour b₀ b₁ then
        match rest₁ with
        | [] => (replacement, [])
        | b₂ :: rest₂ =>
          if isContinuation b₂ then
            match rest₂ with
            | [] => (replacement, [])
            | b₃ :: rest₃ =>
              if isContinuation b₃ then (fourByteChar b₀ b₁ b₂ b₃, rest₃)
              else (replacement, rest₂)
          else (replacement, rest₁)
      else
        (replacement, rest)

theorem length_decodeFirst_le (b₀ : UInt8) (rest : List UInt8) :
    (decodeFirst b₀ rest).2.length ≤ rest.length := by
  unfold decodeFirst
  repeat' split
  all_goals simp
  all_goals omega

def decodeChars : List UInt8 → List Char
  | [] => []
  | b :: rest =>
    let first := decodeFirst b rest
    first.1 :: decodeChars first.2
termination_by bytes => bytes.length
decreasing_by
  have := length_decodeFirst_le b rest
  simp
  omega

def decode (bytes : List UInt8) : String := String.ofList (decodeChars bytes)

def encode (text : String) : List UInt8 := text.toList.flatMap String.utf8EncodeChar

theorem isContinuation_iff (b : UInt8) :
    isContinuation b = true ↔ 128 ≤ b.toNat ∧ b.toNat ≤ 191 := by
  simp [isContinuation, UInt8.le_iff_toNat_le]

theorem leadsTwo_iff (b : UInt8) : leadsTwo b = true ↔ 194 ≤ b.toNat ∧ b.toNat ≤ 223 := by
  simp [leadsTwo, UInt8.le_iff_toNat_le]

theorem leadsThree_iff (b₀ b₁ : UInt8) :
    leadsThree b₀ b₁ = true ↔ 224 ≤ b₀.toNat ∧ b₀.toNat ≤ 239 ∧ 128 ≤ b₁.toNat ∧ b₁.toNat ≤ 191 ∧
      (b₀.toNat = 224 → 160 ≤ b₁.toNat) ∧ (b₀.toNat = 237 → b₁.toNat ≤ 159) := by
  simp [leadsThree, isContinuation_iff, UInt8.le_iff_toNat_le, ← UInt8.toNat_inj]
  omega

theorem leadsFour_iff (b₀ b₁ : UInt8) :
    leadsFour b₀ b₁ = true ↔ 240 ≤ b₀.toNat ∧ b₀.toNat ≤ 244 ∧ 128 ≤ b₁.toNat ∧ b₁.toNat ≤ 191 ∧
      (b₀.toNat = 240 → 144 ≤ b₁.toNat) ∧ (b₀.toNat = 244 → b₁.toNat ≤ 143) := by
  simp [leadsFour, isContinuation_iff, UInt8.le_iff_toNat_le, ← UInt8.toNat_inj]
  omega

private theorem toNat_ofNat_of_lt {n : Nat} (h : n < 256) : (UInt8.ofNat n).toNat = n := by
  simp; omega

private theorem not_ascii {n : Nat} (h : n < 256) (h128 : 128 ≤ n) : ¬ UInt8.ofNat n < 0x80 := by
  rw [UInt8.lt_iff_toNat_lt, toNat_ofNat_of_lt h]
  simp; omega

/-- A written character is read back, and what follows it is left. -/
theorem decodeFirst_encodeChar (c : Char) (rest : List UInt8) :
    ∃ b tail, String.utf8EncodeChar c ++ rest = b :: tail ∧ decodeFirst b tail = (c, rest) := by
  have hc : c.val.toNat < 0xd800 ∨ (0xdfff < c.val.toNat ∧ c.val.toNat < 0x110000) := c.valid
  have hchar : Char.ofNat c.val.toNat = c := Char.ofNat_toNat c
  simp only [String.utf8EncodeChar]
  generalize c.val.toNat = v at hc hchar ⊢
  split
  case isTrue h1 =>
    refine ⟨_, _, rfl, ?_⟩
    have hb := toNat_ofNat_of_lt (n := v) (by omega)
    have : UInt8.ofNat v < 0x80 := by
      rw [UInt8.lt_iff_toNat_lt, hb]; simp; omega
    simp [decodeFirst, this, hb, hchar]
  case isFalse h1 =>
    split
    case isTrue h2 =>
      refine ⟨_, UInt8.ofNat (v % 0x40 + 0x80) :: rest, rfl, ?_⟩
      have h₀ := toNat_ofNat_of_lt (n := v / 64 % 0x20 + 0xc0) (by omega)
      have h₁ := toNat_ofNat_of_lt (n := v % 0x40 + 0x80) (by omega)
      have l₀ := not_ascii (n := v / 64 % 0x20 + 0xc0) (by omega) (by omega)
      have p₀ := (leadsTwo_iff (UInt8.ofNat (v / 64 % 0x20 + 0xc0))).2 (by omega)
      have p₁ := (isContinuation_iff (UInt8.ofNat (v % 0x40 + 0x80))).2 (by omega)
      have value : (v / 64 % 0x20 + 0xc0) % 32 * 64 + (v % 0x40 + 0x80) % 64 = v := by omega
      simp only [decodeFirst, l₀, p₀, p₁, Bool.and_self,
        if_true, if_false, twoByteChar, payload, h₀, h₁, value, hchar]
    case isFalse h2 =>
      split
      case isTrue h3 =>
        refine ⟨_, UInt8.ofNat (v / 64 % 0x40 + 0x80) :: UInt8.ofNat (v % 0x40 + 0x80) :: rest,
          rfl, ?_⟩
        have h₀ := toNat_ofNat_of_lt (n := v / 4096 % 0x10 + 0xe0) (by omega)
        have h₁ := toNat_ofNat_of_lt (n := v / 64 % 0x40 + 0x80) (by omega)
        have h₂ := toNat_ofNat_of_lt (n := v % 0x40 + 0x80) (by omega)
        have l₀ := not_ascii (n := v / 4096 % 0x10 + 0xe0) (by omega) (by omega)
        have n₀ : leadsTwo (UInt8.ofNat (v / 4096 % 0x10 + 0xe0)) = false := by
          rw [Bool.eq_false_iff, Ne, leadsTwo_iff]; omega
        have p₁ := (leadsThree_iff (UInt8.ofNat (v / 4096 % 0x10 + 0xe0))
          (UInt8.ofNat (v / 64 % 0x40 + 0x80))).2 (by omega)
        have p₂ := (isContinuation_iff (UInt8.ofNat (v % 0x40 + 0x80))).2 (by omega)
        have value : (v / 4096 % 0x10 + 0xe0) % 16 * 4096 + (v / 64 % 0x40 + 0x80) % 64 * 64 +
            (v % 0x40 + 0x80) % 64 = v := by omega
        simp only [decodeFirst, l₀, n₀, p₁, p₂, Bool.false_and,
          Bool.false_eq_true, if_true, if_false, threeByteChar, payload, h₀, h₁, h₂, value, hchar]
      case isFalse h3 =>
        refine ⟨_, UInt8.ofNat (v / 4096 % 0x40 + 0x80) :: UInt8.ofNat (v / 64 % 0x40 + 0x80) ::
          UInt8.ofNat (v % 0x40 + 0x80) :: rest, rfl, ?_⟩
        have h₀ := toNat_ofNat_of_lt (n := v / 262144 % 0x08 + 0xf0) (by omega)
        have h₁ := toNat_ofNat_of_lt (n := v / 4096 % 0x40 + 0x80) (by omega)
        have h₂ := toNat_ofNat_of_lt (n := v / 64 % 0x40 + 0x80) (by omega)
        have h₃ := toNat_ofNat_of_lt (n := v % 0x40 + 0x80) (by omega)
        have l₀ := not_ascii (n := v / 262144 % 0x08 + 0xf0) (by omega) (by omega)
        have n₀ : leadsTwo (UInt8.ofNat (v / 262144 % 0x08 + 0xf0)) = false := by
          rw [Bool.eq_false_iff, Ne, leadsTwo_iff]; omega
        have n₁ : leadsThree (UInt8.ofNat (v / 262144 % 0x08 + 0xf0))
            (UInt8.ofNat (v / 4096 % 0x40 + 0x80)) = false := by
          rw [Bool.eq_false_iff, Ne, leadsThree_iff]; omega
        have p₁ := (leadsFour_iff (UInt8.ofNat (v / 262144 % 0x08 + 0xf0))
          (UInt8.ofNat (v / 4096 % 0x40 + 0x80))).2 (by omega)
        have p₂ := (isContinuation_iff (UInt8.ofNat (v / 64 % 0x40 + 0x80))).2 (by omega)
        have p₃ := (isContinuation_iff (UInt8.ofNat (v % 0x40 + 0x80))).2 (by omega)
        have value : (v / 262144 % 0x08 + 0xf0) % 8 * 262144 + (v / 4096 % 0x40 + 0x80) % 64 * 4096 +
            (v / 64 % 0x40 + 0x80) % 64 * 64 + (v % 0x40 + 0x80) % 64 = v := by omega
        simp only [decodeFirst, l₀, n₀, n₁, p₁, p₂, p₃,
          Bool.false_and, Bool.false_eq_true, if_true, if_false, fourByteChar, payload,
          h₀, h₁, h₂, h₃, value, hchar]

theorem decodeChars_encode (cs : List Char) : decodeChars (cs.flatMap String.utf8EncodeChar) = cs := by
  induction cs with
  | nil => simp [decodeChars]
  | cons c cs ih =>
    obtain ⟨b, tail, hsplit, hfirst⟩ := decodeFirst_encodeChar c (cs.flatMap String.utf8EncodeChar)
    rw [List.flatMap_cons, hsplit, decodeChars, hfirst]
    simp [ih]

/-- Text survives being written and read. -/
theorem decode_encode (text : String) : decode (encode text) = text := by
  simp [decode, encode, decodeChars_encode]

end Utf8
end DwarfLines
