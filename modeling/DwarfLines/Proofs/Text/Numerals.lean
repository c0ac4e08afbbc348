import Mathlib
import DwarfLines.Text.Numeral

/-!
# Which texts are numerals

A numeral is one or more digits of a base after an optional plus sign, and it stands for the number
that its digits give by their places. Reading accepts exactly the numerals of numbers that fit
sixty-four bits, however many zeros they begin with, and the numbers that are written are numerals.
-/

namespace DwarfLines
namespace Numeral

/-- A character is a digit of a base with a value. Digits from ten on are letters of either case. -/
def IsDigit (base : ℕ) (c : Char) (value : ℕ) : Prop :=
  value < base ∧ (c = Nat.digitChar value ∨ c = (Nat.digitChar value).toUpper)

/-- Characters are digits of a base, at least one, and stand for a number by their places. -/
def Spells (base : ℕ) (digits : List Char) (n : ℕ) : Prop :=
  digits ≠ [] ∧ ∃ values, List.Forall₂ (IsDigit base) digits values ∧
    Nat.ofDigits base values.reverse = n

/-- Characters are the digits of a number, with or without a plus sign in front. -/
inductive Denotes (base : ℕ) : List Char → ℕ → Prop
  | unsigned {digits : List Char} {n : ℕ} (h : Spells base digits n) : Denotes base digits n
  | plus {digits : List Char} {n : ℕ} (h : Spells base digits n) : Denotes base ('+' :: digits) n

variable {base : ℕ}

theorem isDigit_of_digit? {c : Char} {value : ℕ} (hbase : base ≤ 16)
    (h : digit? base c = some value) : IsDigit base c value := by
  obtain ⟨hvalue, hlt⟩ := Option.filter_eq_some_iff.mp h
  have hlt : value < base := by simpa using hlt
  refine ⟨hlt, ?_⟩
  have hchar : c = Char.ofNat c.toNat := (Char.ofNat_toNat c).symm
  -- The three ranges are told apart by the code of the character, and have ten, six and six members.
  split_ifs at hvalue with hdecimal hlower hupper
  · have hlow : 48 ≤ c.toNat := hdecimal.1
    have hhigh : c.toNat ≤ 57 := hdecimal.2
    cases hvalue
    left
    generalize c.toNat = code at *
    subst hchar
    interval_cases code <;> rfl
  · have hlow : 97 ≤ c.toNat := hlower.1
    cases hvalue
    left
    change c.toNat - 97 + 10 < base at hlt
    change c = Nat.digitChar (c.toNat - 97 + 10)
    have hhigh : c.toNat ≤ 102 := by omega
    generalize c.toNat = code at *
    subst hchar
    interval_cases code <;> rfl
  · have hlow : 65 ≤ c.toNat := hupper.1
    cases hvalue
    right
    change c.toNat - 65 + 10 < base at hlt
    change c = (Nat.digitChar (c.toNat - 65 + 10)).toUpper
    have hhigh : c.toNat ≤ 70 := by omega
    generalize c.toNat = code at *
    subst hchar
    interval_cases code <;> rfl

theorem digit?_of_isDigit {c : Char} {value : ℕ} (hbase : base ≤ 16)
    (h : IsDigit base c value) : digit? base c = some value := by
  obtain ⟨hlt, hchar⟩ := h
  have hsixteen : digit? 16 c = some value := by
    have hbound : value < 16 := by omega
    interval_cases value <;> rcases hchar with rfl | rfl <;> rfl
  have hvalue := (Option.filter_eq_some_iff.mp hsixteen).1
  exact Option.filter_eq_some_iff.mpr ⟨hvalue, by simpa using hlt⟩

theorem ofDigits_reverse_cons (before value : ℕ) (values : List ℕ) :
    Nat.ofDigits base ((value :: values).reverse ++ [before]) =
      Nat.ofDigits base (values.reverse ++ [base * before + value]) := by
  rw [List.reverse_cons, List.append_assoc, List.singleton_append, Nat.ofDigits_append,
    Nat.ofDigits_append]
  simp only [Nat.ofDigits_cons, Nat.ofDigits_nil]
  ring

/-- Reading on accepts digits, and gives the number that they stand for behind the one before. -/
theorem digitsFrom?_eq_some_iff {before n : ℕ} {digits : List Char} (hbase : base ≤ 16) :
    digitsFrom? base before digits = some n ↔
      ∃ values, List.Forall₂ (IsDigit base) digits values ∧
        Nat.ofDigits base (values.reverse ++ [before]) = n := by
  induction digits generalizing before with
  | nil => simp [digitsFrom?]
  | cons c digits ih =>
    rw [digitsFrom?]
    constructor
    · intro h
      obtain ⟨value, hvalue, h⟩ := Option.bind_eq_some_iff.mp h
      obtain ⟨values, hvalues, rfl⟩ := ih.mp h
      exact ⟨value :: values, .cons (isDigit_of_digit? hbase hvalue) hvalues,
        ofDigits_reverse_cons before value values⟩
    · rintro ⟨_, hvalues, rfl⟩
      cases hvalues with
      | @cons _ value _ values hvalue hvalues =>
        refine Option.bind_eq_some_iff.mpr ⟨value, digit?_of_isDigit hbase hvalue, ?_⟩
        exact ih.mpr ⟨values, hvalues, (ofDigits_reverse_cons before value values).symm⟩

theorem digits?_eq_some_iff {digits : List Char} {n : ℕ} (hbase : base ≤ 16) :
    digits? base digits = some n ↔ Spells base digits n := by
  cases digits with
  | nil => simp [digits?, Spells]
  | cons c digits =>
    have hzero (values : List ℕ) :
        Nat.ofDigits base (values ++ [0]) = Nat.ofDigits base values := by
      simp [Nat.ofDigits_append]
    change digitsFrom? base 0 (c :: digits) = some n ↔ _
    rw [digitsFrom?_eq_some_iff hbase, Spells]
    simp only [hzero, ne_eq, reduceCtorEq, not_false_eq_true, true_and]

theorem Spells.digit?_isSome {digits : List Char} {n : ℕ} (hbase : base ≤ 16)
    (h : Spells base digits n) : ∀ c ∈ digits, (digit? base c).isSome = true := by
  obtain ⟨-, values, hvalues, -⟩ := h
  induction hvalues with
  | nil => simp
  | cons hvalue _ ih =>
    intro c hc
    rcases List.mem_cons.mp hc with rfl | hc
    · rw [digit?_of_isDigit hbase hvalue]
      rfl
    · exact ih c hc

/-- A sign is left out in front of the digits and nowhere else. -/
theorem digits?_dropPlus_eq_some_iff {cs : List Char} {n : ℕ} (hbase : base ≤ 16) :
    digits? base (dropPlus cs) = some n ↔ Denotes base cs n := by
  rw [digits?_eq_some_iff hbase]
  constructor
  · intro h
    unfold dropPlus at h
    split at h
    · exact .plus h
    · exact .unsigned h
  · intro h
    cases h with
    | plus h => exact h
    | unsigned h =>
      unfold dropPlus
      split
      · have hsign := h.digit?_isSome hbase '+' List.mem_cons_self
        cases hsign
      · exact h

/-- Reading a number accepts the numerals of those below `2 ^ 64`. -/
theorem word?_eq_some_iff {cs : List Char} {word : UInt64} (hbase : base ≤ 16) :
    word? base cs = some word ↔ Denotes base cs word.toNat := by
  rw [← digits?_dropPlus_eq_some_iff hbase, word?]
  constructor
  · intro h
    obtain ⟨n, hn, h⟩ := Option.bind_eq_some_iff.mp h
    split_ifs at h with hlt
    cases h
    rw [hn, UInt64.toNat_ofNat_of_lt' hlt]
  · intro h
    refine Option.bind_eq_some_iff.mpr ⟨word.toNat, h, ?_⟩
    rw [if_pos word.toNat_lt, UInt64.ofNat_toNat]

theorem spells_toDigits (hone : 1 < base) (hbase : base ≤ 16) (n : ℕ) :
    Spells base (Nat.toDigits base n) n := by
  induction n using Nat.strongRecOn with
  | ind n ih =>
    have hdigit (value : ℕ) (hvalue : value < base) : IsDigit base (Nat.digitChar value) value :=
      ⟨hvalue, .inl rfl⟩
    rcases Nat.lt_or_ge n base with hlt | hle
    · rw [Nat.toDigits_of_lt_base hlt]
      exact ⟨List.cons_ne_nil _ _, [n], .cons (hdigit n hlt) .nil, by simp⟩
    · rw [Nat.toDigits_of_base_le hone hle]
      have hsmaller : n / base < n := Nat.div_lt_self (by omega) hone
      obtain ⟨-, values, hvalues, hn⟩ := ih (n / base) hsmaller
      have hlast := hdigit (n % base) (Nat.mod_lt n (by omega))
      refine ⟨by simp, values ++ [n % base], List.rel_append hvalues (.cons hlast .nil), ?_⟩
      rw [List.reverse_concat, Nat.ofDigits_cons, hn]
      exact Nat.mod_add_div n base

theorem denotes_decimal (n : ℕ) : Denotes 10 (decimal n).toList n := by
  rw [decimal, String.toList_ofList]
  exact .unsigned (spells_toDigits (by decide) (by decide) n)

end Numeral
end DwarfLines
