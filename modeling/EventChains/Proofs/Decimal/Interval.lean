import EventChains.Decimal.Shortest
import Mathlib.Algebra.Order.Field.Power
import Mathlib.Algebra.Order.Field.Rat
import Mathlib.Tactic.FieldSimp
import Mathlib.Tactic.NormNum

/-!
# Rounding intervals

`Magnitude.Holds` is the rounding interval of a magnitude as a set of rational numbers. The
comparisons of natural numbers in the search for a shortest decimal decide it (`holds_iff`), so what
the search finds lies in it, whatever the search leaves out (`holds_shortest`).
-/

namespace EventChains.Decimal

/-- What a decimal is worth. -/
def worth (d : Decimal) : ℚ :=
  d.digits * 10 ^ d.exponent

namespace Magnitude

variable {x : Magnitude}

/-- What a magnitude is worth. -/
def worth (x : Magnitude) : ℚ :=
  x.m * 2 ^ x.q

/-- A number lies in the rounding interval; its ends belong to it exactly if the significand is
even. -/
structure Holds (x : Magnitude) (v : ℚ) : Prop where
  lower : x.lower * 2 ^ (x.q - 2) ≤ v
  upper : v ≤ x.upper * 2 ^ (x.q - 2)
  inside : x.m % 2 = 1 → x.lower * 2 ^ (x.q - 2) < v ∧ v < x.upper * 2 ^ (x.q - 2)

/-- A power as a quotient of two natural powers, one of which is one. -/
theorem zpow_eq_div (base : ℚ) (n : Int) : base ^ n = base ^ n.toNat / base ^ (-n).toNat := by
  rcases Int.le_total 0 n with h | h
  · rw [Int.toNat_of_nonpos (Int.neg_nonpos_of_nonneg h), pow_zero, div_one, ← zpow_natCast,
      Int.toNat_of_nonneg h]
  · rw [Int.toNat_of_nonpos h, pow_zero, one_div, ← zpow_natCast,
      Int.toNat_of_nonneg (Int.neg_nonneg_of_nonpos h), zpow_neg, inv_inv]

theorem scale_pos (x : Magnitude) (k : Int) : 0 < (x.scale k).2 :=
  Nat.mul_pos (Nat.pow_pos (by decide)) (Nat.pow_pos (by decide))

/-- A quarter is to a step as the two parts of the scale. -/
theorem scale_eq (x : Magnitude) (k : Int) :
    (2 : ℚ) ^ (x.q - 2) = (x.scale k).1 / (x.scale k).2 * 10 ^ k := by
  rw [zpow_eq_div 10, zpow_eq_div 2, Int.neg_sub]
  simp only [scale, Nat.pow_eq, Nat.cast_mul, Nat.cast_pow, Nat.cast_ofNat]
  field_simp

/-- Quarters and steps are compared on the common grid. -/
theorem quarters_le_steps (x : Magnitude) (k : Int) (quarters steps : Nat) :
    quarters * (x.scale k).1 ≤ steps * (x.scale k).2 ↔
      (quarters * 2 ^ (x.q - 2) : ℚ) ≤ steps * 10 ^ k := by
  have hunit : (0 : ℚ) < (x.scale k).2 := by exact_mod_cast x.scale_pos k
  rw [scale_eq x k, ← mul_assoc, mul_le_mul_iff_left₀ (by positivity), ← mul_div_assoc,
    div_le_iff₀ hunit]
  exact_mod_cast Iff.rfl

theorem steps_le_quarters (x : Magnitude) (k : Int) (quarters steps : Nat) :
    steps * (x.scale k).2 ≤ quarters * (x.scale k).1 ↔
      (steps * 10 ^ k : ℚ) ≤ quarters * 2 ^ (x.q - 2) := by
  have hunit : (0 : ℚ) < (x.scale k).2 := by exact_mod_cast x.scale_pos k
  rw [scale_eq x k, ← mul_assoc, mul_le_mul_iff_left₀ (by positivity), ← mul_div_assoc,
    le_div_iff₀ hunit]
  exact_mod_cast Iff.rfl

/-- The comparisons of natural numbers decide the rounding interval. -/
theorem holds_iff (x : Magnitude) (k : Int) (d : Nat) :
    x.holds k d = true ↔ x.Holds (d * 10 ^ k) := by
  have hlower := quarters_le_steps x k x.lower d
  have hupper := steps_le_quarters x k x.upper d
  have hlower' := (steps_le_quarters x k x.lower d).not
  have hupper' := (quarters_le_steps x k x.upper d).not
  rw [Nat.not_le, not_le] at hlower' hupper'
  show (if x.m % 2 = 0 then
      decide (x.lower * (x.scale k).1 ≤ d * (x.scale k).2) &&
        decide (d * (x.scale k).2 ≤ x.upper * (x.scale k).1)
    else
      decide (x.lower * (x.scale k).1 < d * (x.scale k).2) &&
        decide (d * (x.scale k).2 < x.upper * (x.scale k).1)) = true ↔ _
  split
  · rename_i heven
    rw [Bool.and_eq_true, decide_eq_true_eq, decide_eq_true_eq, hlower, hupper]
    exact ⟨fun h => ⟨h.1, h.2, fun hodd => by omega⟩, fun h => ⟨h.lower, h.upper⟩⟩
  · rename_i hodd
    rw [Bool.and_eq_true, decide_eq_true_eq, decide_eq_true_eq, hlower', hupper']
    exact ⟨fun h => ⟨h.1.le, h.2.le, fun _ => h⟩, fun h => h.inside (by omega)⟩

/-- A magnitude lies in its rounding interval. -/
theorem holds_worth (h : 0 < x.m) : x.Holds x.worth := by
  have hpower : x.worth = (4 * x.m : Nat) * 2 ^ (x.q - 2) := by
    rw [worth, zpow_sub₀ (by decide)]
    push_cast
    field_simp
  have hlower : (x.lower : ℚ) < (4 * x.m : Nat) := by
    rw [Nat.cast_lt, lower]
    split <;> omega
  have hupper : ((4 * x.m : Nat) : ℚ) < x.upper := by
    rw [Nat.cast_lt, upper]
    omega
  have hquarter : (0 : ℚ) < 2 ^ (x.q - 2) := by positivity
  rw [hpower]
  have hbelow := mul_lt_mul_of_pos_right hlower hquarter
  have habove := mul_lt_mul_of_pos_right hupper hquarter
  exact ⟨hbelow.le, habove.le, fun _ => ⟨hbelow, habove⟩⟩

/-- All digits of a magnitude are worth the magnitude. -/
theorem worth_exact (x : Magnitude) : x.exact.worth = x.worth := by
  unfold exact
  split
  · rename_i h
    rw [Decimal.worth, worth, zpow_eq_div 2, Int.toNat_of_nonpos (by omega : -x.q ≤ 0)]
    simp
  · rename_i h
    rw [Decimal.worth, worth, zpow_eq_div 2, zpow_eq_div 10,
      Int.toNat_of_nonpos (by omega : x.q ≤ 0)]
    simp only [Nat.pow_eq, Nat.cast_mul, Nat.cast_pow, Nat.cast_ofNat, pow_zero]
    rw [show (10 : ℚ) = 2 * 5 by norm_num, mul_pow]
    field_simp

/-- What is found on a grid lies in the rounding interval. -/
theorem holds_of_onGrid? {tie : Tie} {k : Int} {d : Decimal} (h : x.onGrid? tie k = some d) :
    x.Holds d.worth := by
  suffices hd : x.holds d.exponent d.digits = true from (holds_iff x _ _).1 hd
  unfold onGrid? at h
  dsimp only at h
  split at h
  · contradiction
  · cases h
    assumption
  · cases h
    assumption
  · cases h
    split <;> assumption

/-- The shortest decimal lies in the rounding interval. -/
theorem holds_shortest (h : 0 < x.m) (tie : Tie) : x.Holds (x.shortest tie).worth := by
  unfold shortest
  cases hfound : (List.range 24).findSome? fun i => x.onGrid? tie (x.topExponent - Int.ofNat i) with
  | none =>
      rw [Option.getD_none, worth_exact]
      exact holds_worth h
  | some d =>
      obtain ⟨i, -, hgrid⟩ := List.exists_of_findSome?_eq_some hfound
      exact holds_of_onGrid? hgrid

end Magnitude

end EventChains.Decimal
