import EventChains.Decimal.Layout
import EventChains.Text.Numeral
import Mathlib.Algebra.Order.Ring.Nat

/-!
# Digits of natural numbers

The digits of a number are read back as the number (`readDigits?_digitsOf`), and those of a number
other than zero do not start with a zero (`digitsOf_eq_cons`). `digitsValue_append` says what digits
that stand behind others are worth.
-/

namespace EventChains.Decimal

open EventChains.Text

theorem digitsOf_eq (n : Nat) : digitsOf n = Nat.toDigits 10 n :=
  Nat.toList_repr

theorem digitsOf_ne_nil (n : Nat) : digitsOf n ≠ [] := by
  rw [digitsOf_eq]
  exact Nat.toDigits_ne_nil

theorem isDigit_of_mem_digitsOf {n : Nat} {c : Char} (h : c ∈ digitsOf n) : c.isDigit = true := by
  rw [digitsOf_eq] at h
  exact Nat.isDigit_of_mem_toDigits (by decide) (by decide) h

theorem isDigit_of_mem_zeros {n : Nat} {c : Char} (h : c ∈ zeros n) : c.isDigit = true := by
  rw [List.eq_of_mem_replicate h]
  decide

/-- The value of digits is that of a positional numeral of base ten. -/
theorem digitsValue_eq (digits : List Char) : digitsValue digits = Nat.ofDigitChars 10 digits 0 :=
  rfl

@[simp]
theorem digitsValue_digitsOf (n : Nat) : digitsValue (digitsOf n) = n := by
  rw [digitsValue_eq, digitsOf_eq, Nat.ofDigitChars_ten_toDigits]

@[simp]
theorem digitsValue_zeros (n : Nat) : digitsValue (zeros n) = 0 := by
  rw [digitsValue_eq, zeros, Nat.ofDigitChars_replicate_zero, Nat.mul_zero]

/-- Digits are worth a power of ten more for each digit behind them. -/
theorem digitsValue_append (front back : List Char) :
    digitsValue (front ++ back) = 10 ^ back.length * digitsValue front + digitsValue back := by
  rw [digitsValue_eq, Nat.ofDigitChars_append, Nat.ofDigitChars_eq_ofDigitChars_zero]
  rfl

theorem readDigits?_of_isDigit {digits : List Char} (hne : digits ≠ [])
    (h : ∀ c ∈ digits, c.isDigit = true) : readDigits? digits = some (digitsValue digits) := by
  rw [readDigits?, if_pos]
  rw [Bool.and_eq_true, Bool.not_eq_true', List.isEmpty_eq_false_iff, List.all_eq_true]
  exact ⟨hne, h⟩

/-- The digits of a number are read back as the number. -/
theorem readDigits?_digitsOf (n : Nat) : readDigits? (digitsOf n) = some n := by
  rw [readDigits?_of_isDigit (digitsOf_ne_nil n) fun _ => isDigit_of_mem_digitsOf,
    digitsValue_digitsOf]

/-- A sign in front of digits is read. -/
theorem readInt?_signed (e : Int) :
    readInt? ((if e < 0 then '-' else '+') :: digitsOf e.natAbs) = some e := by
  split
  · rw [readInt?, readDigits?_digitsOf]
    show some (-(e.natAbs : Int)) = some e
    rw [Option.some.injEq]
    omega
  · rw [readInt?, readDigits?_digitsOf, Option.map_some, Option.some.injEq]
    exact Int.natAbs_of_nonneg (by omega)

/-- The first digit of a number other than zero is no zero. -/
theorem digitsOf_eq_cons {n : Nat} (h : n ≠ 0) : ∃ c rest, digitsOf n = c :: rest ∧ c ≠ '0' := by
  induction n using Nat.strongRecOn with
  | ind n ih =>
      rw [digitsOf_eq]
      rcases Nat.lt_or_ge n 10 with hlt | hge
      · exact ⟨n.digitChar, [], Nat.toDigits_of_lt_base hlt, fun hzero =>
          h (Nat.digitChar_eq_zero.1 hzero)⟩
      · obtain ⟨c, rest, hdigits, hc⟩ := ih (n / 10) (by omega) (by omega)
        refine ⟨c, rest ++ [(n % 10).digitChar], ?_, hc⟩
        rw [Nat.toDigits_of_base_le (by decide) hge, ← digitsOf_eq, hdigits]
        rfl

end EventChains.Decimal
