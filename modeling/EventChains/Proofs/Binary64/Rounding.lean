import EventChains.Proofs.Binary64.Unpacked
import EventChains.Proofs.Decimal.Interval

/-!
# Rounding

A rational number is rounded by way of an extended significand, which represents it
(`Represents`): the digits in front of the point, one behind it, and whether any other follows.
Whatever lies in the rounding interval of a canonical magnitude is rounded to that magnitude
(`roundWithAccuracy_eq`).
-/

namespace EventChains.Binary64

open EventChains.Decimal Float.Model Float.Model.UnpackedFloat

/-- An extended significand stands for a number: it has the binary digits up to the first one behind
the point, and knows whether others follow. -/
def Represents (em : ExtendedMantissa) (v : ℚ) : Prop :=
  match em with
  | ⟨m, false, false⟩ => v = m
  | ⟨m, false, true⟩ => m < v ∧ v < m + 1 / 2
  | ⟨m, true, false⟩ => v = m + 1 / 2
  | ⟨m, true, true⟩ => m + 1 / 2 < v ∧ v < m + 1

variable {em : ExtendedMantissa} {v : ℚ}

/-- A natural number stands for itself. -/
theorem represents_exact (m : Nat) : Represents (.ofMantissaAndAccuracy m .exact) m :=
  rfl

/-- A quotient stands for its fraction. -/
theorem represents_fraction (num : Nat) {den : Nat} (hden : 0 < den) :
    Represents (.ofMantissaAndAccuracy (num / den) (accuracyOfFraction (num % den) den))
      (num / den) := by
  have hpos : (0 : ℚ) < den := by exact_mod_cast hden
  have hdivision : (num : ℚ) = den * (num / den : Nat) + (num % den : Nat) := by
    exact_mod_cast (Nat.div_add_mod num den).symm
  have hsum : (num / den : ℚ) = (num / den : Nat) + (num % den : Nat) / den := by
    rw [div_eq_iff hpos.ne', add_mul, div_mul_cancel₀ _ hpos.ne', mul_comm, ← hdivision]
  have hrest : ((num % den : Nat) / den : ℚ) < 1 := by
    rw [div_lt_one hpos]
    exact_mod_cast Nat.mod_lt num hden
  rw [hsum, accuracyOfFraction]
  split
  · rename_i hzero
    rw [hzero, Nat.cast_zero, zero_div, add_zero]
    exact represents_exact _
  · rename_i hzero
    have hfraction : (0 : ℚ) < (num % den : Nat) / den :=
      div_pos (by exact_mod_cast Nat.pos_of_ne_zero hzero) hpos
    have htwice : ((2 * (num % den) : Nat) : ℚ) = 2 * ((num % den : Nat) / den) * den := by
      push_cast
      field_simp
    generalize ((num % den : Nat) / den : ℚ) = part at *
    cases hhalf : compare (2 * (num % den)) den with
    | lt =>
        have hlt : ((2 * (num % den) : Nat) : ℚ) < den := by
          exact_mod_cast Nat.compare_eq_lt.1 hhalf
        rw [htwice, mul_lt_iff_lt_one_left hpos] at hlt
        exact ⟨by linarith, by linarith⟩
    | eq =>
        have heq : ((2 * (num % den) : Nat) : ℚ) = den := by
          exact_mod_cast Nat.compare_eq_eq.1 hhalf
        rw [htwice, mul_eq_right₀ hpos.ne'] at heq
        show _ = _ + (1 / 2 : ℚ)
        linarith
    | gt =>
        have hgt : (den : ℚ) < (2 * (num % den) : Nat) := by
          exact_mod_cast Nat.compare_eq_gt.1 hhalf
        rw [htwice, lt_mul_iff_one_lt_left hpos] at hgt
        exact ⟨by linarith, by linarith⟩

theorem shiftRightOne_even (k : Nat) (round sticky : Bool) :
    ExtendedMantissa.shiftRightOne ⟨2 * k, round, sticky⟩ = ⟨k, false, round || sticky⟩ := by
  simp [ExtendedMantissa.shiftRightOne]

theorem shiftRightOne_odd (k : Nat) (round sticky : Bool) :
    ExtendedMantissa.shiftRightOne ⟨2 * k + 1, round, sticky⟩ = ⟨k, true, round || sticky⟩ := by
  simp [ExtendedMantissa.shiftRightOne]
  omega

/-- One digit moved behind the point halves a number. -/
theorem Represents.shiftRightOne (h : Represents em v) : Represents em.shiftRightOne (v / 2) := by
  obtain ⟨m, round, sticky⟩ := em
  obtain ⟨k, rfl | rfl⟩ := m.even_or_odd'
  · rw [shiftRightOne_even]
    cases round <;> cases sticky <;> simp only [Represents, Bool.or_false, Bool.or_true] at h ⊢ <;>
      push_cast at h
    · linarith
    · constructor <;> linarith
    · constructor <;> linarith
    · constructor <;> linarith
  · rw [shiftRightOne_odd]
    cases round <;> cases sticky <;> simp only [Represents, Bool.or_false, Bool.or_true] at h ⊢ <;>
      push_cast at h
    · linarith
    · constructor <;> linarith
    · constructor <;> linarith
    · constructor <;> linarith

theorem Represents.shiftRight (h : Represents em v) (n : Nat) :
    Represents (em >>> n) (v / 2 ^ n) := by
  induction n with
  | zero =>
      rw [pow_zero, div_one]
      exact h
  | succ n ih =>
      rw [pow_succ, ← div_div]
      exact ih.shiftRightOne

theorem eq_of_near {k m : Nat} (hk : (k : ℚ) < m + 1) (hm : (m : ℚ) < k + 1) : k = m := by
  have hk : k < m + 1 := by exact_mod_cast hk
  have hm : m < k + 1 := by exact_mod_cast hm
  omega

/-- A natural number is rounded to none that is less. -/
theorem le_of_near {n k : Nat} (hn : n ≤ v) (hk : v ≤ k + 1 / 2) : n ≤ k := by
  have hlt : (n : ℚ) < k + 1 := by linarith
  have hlt : n < k + 1 := by exact_mod_cast hlt
  omega

/-- The nearest natural number is the rounded one; at equal distance it is the even one. -/
theorem Represents.roundedMantissa_eq (h : Represents em v) {m : Nat} (hle : m - 1 / 2 ≤ v)
    (hge : v ≤ m + 1 / 2) (hodd : m % 2 = 1 → m - 1 / 2 < v ∧ v < m + 1 / 2) :
    em.roundedMantissa = m := by
  obtain ⟨k, round, sticky⟩ := em
  cases round with
  | false =>
      cases sticky with
      | false =>
          have h : v = k := h
          show k = m
          exact eq_of_near (by linarith) (by linarith)
      | true =>
          have h : k < v ∧ v < k + 1 / 2 := h
          show k = m
          exact eq_of_near (by linarith) (by linarith)
  | true =>
      cases sticky with
      | false =>
          have h : v = k + 1 / 2 := h
          show k + k % 2 = m
          rcases Nat.mod_two_eq_zero_or_one m with heven | hone
          · -- the even number is the same or the next one
            have hkm : k < m + 1 := by exact_mod_cast (by linarith : (k : ℚ) < m + 1)
            have hmk : m < k + 2 := by exact_mod_cast (by linarith : (m : ℚ) < k + 2)
            omega
          · obtain ⟨hlt, hgt⟩ := hodd hone
            have hkm : k < m := by exact_mod_cast (by linarith : (k : ℚ) < m)
            have hmk : m < k + 1 := by exact_mod_cast (by linarith : (m : ℚ) < k + 1)
            omega
      | true =>
          have h : k + 1 / 2 < v ∧ v < k + 1 := h
          show k + 1 = m
          exact eq_of_near (by push_cast; linarith) (by push_cast; linarith)

/-! ## The exponent of the result -/

/-- The exponent under which a significand has 53 bits, or the least one. -/
def targetOf (m : Nat) (e : Int) : Int :=
  max (m.log2 + 1 + e - 53) (-1074)

theorem shiftToTargetExponent_eq {m : Nat} {e : Int} (accuracy : Accuracy) :
    shiftToTargetExponent .binary64 m e accuracy =
      (ExtendedMantissa.ofMantissaAndAccuracy m accuracy >>> (targetOf m e - e).toNat,
        e + (targetOf m e - e).toNat) :=
  rfl

/-- A result is rounded under the target exponent, and shifted once more if it has become too
long. -/
theorem roundWithAccuracy_of_shift {sign : Sign} {m m' : Nat} {e q q' : Int} {accuracy : Accuracy}
    {em em' : ExtendedMantissa} (hpos : 0 < m')
    (hfirst : shiftToTargetExponent .binary64 m e accuracy = (em, q))
    (hsecond : shiftToTargetExponent .binary64 em.roundedMantissa q .exact = (em', q'))
    (hm : em'.mantissa = m') :
    roundWithAccuracy .binary64 sign m e accuracy = .finite sign m' q' hpos := by
  unfold roundWithAccuracy
  rw [hfirst]
  dsimp only
  rw [hsecond]
  dsimp only
  rw [dif_neg (by omega)]
  exact finite_congr rfl hm rfl

theorem mantissa_ofMantissaAndAccuracy (m : Nat) (accuracy : Accuracy) :
    (ExtendedMantissa.ofMantissaAndAccuracy m accuracy).mantissa = m := by
  cases accuracy with
  | exact => rfl
  | inexact order => cases order <;> rfl

theorem Represents.mantissa_le (h : Represents em v) : em.mantissa ≤ v := by
  obtain ⟨m, round, sticky⟩ := em
  cases round <;> cases sticky <;> simp only [Represents] at h ⊢ <;> linarith

theorem Represents.lt_mantissa (h : Represents em v) : v < em.mantissa + 1 := by
  obtain ⟨m, round, sticky⟩ := em
  cases round <;> cases sticky <;> simp only [Represents] at h ⊢ <;> linarith

theorem two_zpow (k : Nat) (q : Int) : (2 : ℚ) ^ (k + q) = 2 ^ k * 2 ^ q := by
  rw [zpow_add₀ two_ne_zero, zpow_natCast]

section

variable {x : Magnitude} {m : Nat} {e : Int} {accuracy : Accuracy} {w : ℚ}

/-- The leading digit of a significand bounds the number that it stands for. -/
theorem Represents.bounds (h : Represents (.ofMantissaAndAccuracy m accuracy) (w / 2 ^ e)) :
    w < 2 ^ (m.log2 + 1 + e) ∧ (m ≠ 0 → 2 ^ (m.log2 + e) ≤ w) := by
  have hpower : (0 : ℚ) < 2 ^ e := by positivity
  have hle := h.mantissa_le
  have hlt := h.lt_mantissa
  rw [mantissa_ofMantissaAndAccuracy, le_div_iff₀ hpower] at hle
  rw [mantissa_ofMantissaAndAccuracy, div_lt_iff₀ hpower] at hlt
  constructor
  · have hlog : (m + 1 : ℚ) ≤ 2 ^ (m.log2 + 1) := by
      exact_mod_cast Nat.lt_log2_self
    calc w < (m + 1) * 2 ^ e := hlt
      _ ≤ 2 ^ (m.log2 + 1) * 2 ^ e := mul_le_mul_of_nonneg_right hlog hpower.le
      _ = 2 ^ (m.log2 + 1 + e) := (two_zpow (m.log2 + 1) e).symm
  · intro hm
    have hlog : (2 ^ m.log2 : ℚ) ≤ m := by
      exact_mod_cast Nat.log2_self_le hm
    calc (2 : ℚ) ^ (m.log2 + e) = 2 ^ m.log2 * 2 ^ e := two_zpow m.log2 e
      _ ≤ m * 2 ^ e := mul_le_mul_of_nonneg_right hlog hpower.le
      _ ≤ w := hle

/-- What is rounded to a magnitude has no digit in front of its 53 digits. -/
theorem lt_of_holds (canonical : Canonical x) (hw : x.Holds w) : w < 2 ^ (53 + x.q) := by
  have hquarter : (0 : ℚ) < 2 ^ (x.q - 2) := by positivity
  have hupper : (x.upper : ℚ) < 2 ^ 55 := by
    have hlt := canonical.lt
    have : x.upper < 2 ^ 55 := show 4 * x.m + 2 < 2 ^ 55 by omega
    exact_mod_cast this
  calc w ≤ x.upper * 2 ^ (x.q - 2) := hw.upper
    _ < 2 ^ 55 * 2 ^ (x.q - 2) := mul_lt_mul_of_pos_right hupper hquarter
    _ = 2 ^ (53 + x.q) := by
        rw [← two_zpow]
        congr 1
        omega

/-- What is rounded to a magnitude with 53 digits has as many, or one digit less if the magnitude is
the least of them. -/
theorem le_of_holds {k : Nat} (hk : 2 ^ k ≤ x.lower) (hw : x.Holds w) :
    2 ^ (k + (x.q - 2)) ≤ w := by
  have hquarter : (0 : ℚ) < 2 ^ (x.q - 2) := by positivity
  have hlower : (2 ^ k : ℚ) ≤ x.lower := by exact_mod_cast hk
  calc (2 : ℚ) ^ (k + (x.q - 2)) = 2 ^ k * 2 ^ (x.q - 2) := two_zpow k _
    _ ≤ x.lower * 2 ^ (x.q - 2) := mul_le_mul_of_nonneg_right hlower hquarter.le
    _ ≤ w := hw.lower

theorem lower_eq (x : Magnitude) : x.lower = 4 * x.m - if x.narrowBelow then 1 else 2 :=
  rfl

/-- The target exponent is that of the magnitude, or one less where the number lies below the least
significand of 53 digits. -/
theorem targetOf_cases (canonical : Canonical x)
    (h : Represents (.ofMantissaAndAccuracy m accuracy) (w / 2 ^ e)) (he : e ≤ targetOf m e)
    (hw : x.Holds w) :
    targetOf m e = x.q ∨
      (targetOf m e = x.q - 1 ∧ x.m = 2 ^ 52 ∧ -1074 < x.q ∧ w < 2 ^ (53 + (x.q - 1))) := by
  obtain ⟨hlt, hle⟩ := h.bounds
  have hbelow := lt_of_holds canonical hw
  obtain ⟨hpos, -, hleast, -, hfull, hnarrow⟩ := canonical
  have hlog : (m.log2 : Int) + 1 + e ≤ 53 + x.q := by
    rcases Nat.eq_zero_or_pos m with rfl | hm
    · rw [targetOf, Nat.log2_zero] at he
      rw [Nat.log2_zero]
      omega
    · have := (zpow_lt_zpow_iff_right₀ one_lt_two).1 ((hle hm.ne').trans_lt hbelow)
      omega
  by_cases hq : x.q = -1074
  · left
    rw [targetOf]
    omega
  · have hfull := hfull.resolve_right hq
    by_cases hm : x.m = 2 ^ 52
    · have hlower : 2 ^ 53 ≤ x.lower := by
        rw [lower_eq, hnarrow.2 ⟨hm, hq⟩, if_pos rfl]
        omega
      have := (zpow_lt_zpow_iff_right₀ one_lt_two).1 ((le_of_holds hlower hw).trans_lt hlt)
      by_cases hshort : (m.log2 : Int) + 1 + e = 53 + (x.q - 1)
      · right
        rw [hshort] at hlt
        refine ⟨?_, hm, by omega, hlt⟩
        rw [targetOf]
        omega
      · left
        rw [targetOf]
        omega
    · have hlower : 2 ^ 54 ≤ x.lower := by
        rw [lower_eq, if_neg fun h => hm (hnarrow.1 h).1]
        omega
      have := (zpow_lt_zpow_iff_right₀ one_lt_two).1 ((le_of_holds hlower hw).trans_lt hlt)
      left
      rw [targetOf]
      omega

/-- A unit has four quarters. -/
theorem four_quarters (q : Int) : (2 : ℚ) ^ q = 4 * 2 ^ (q - 2) := by
  rw [show (4 : ℚ) = 2 ^ 2 by norm_num, ← two_zpow]
  congr 1
  omega

/-- A rounding interval ends half a unit above the magnitude. -/
theorem upper_mul_quarter (x : Magnitude) :
    (x.upper : ℚ) * 2 ^ (x.q - 2) = (x.m + 1 / 2) * 2 ^ x.q := by
  rw [four_quarters x.q, Magnitude.upper]
  push_cast
  ring

/-- A number in a rounding interval is at most half a unit away from the magnitude. -/
theorem near_of_holds (hpos : 0 < x.m) (hw : x.Holds w) :
    (x.m : ℚ) - 1 / 2 ≤ w / 2 ^ x.q ∧ w / 2 ^ x.q ≤ x.m + 1 / 2 ∧
      (x.m % 2 = 1 → (x.m : ℚ) - 1 / 2 < w / 2 ^ x.q ∧ w / 2 ^ x.q < x.m + 1 / 2) := by
  have hquarter : (0 : ℚ) < 2 ^ (x.q - 2) := by positivity
  have hunit := four_quarters x.q
  have hlower : ((x.m : ℚ) - 1 / 2) * 2 ^ x.q ≤ x.lower * 2 ^ (x.q - 2) := by
    have hle : 4 * x.m ≤ x.lower + 2 := by
      rw [lower_eq]
      split <;> omega
    have hle : (4 * x.m : ℚ) ≤ x.lower + 2 := by exact_mod_cast hle
    rw [hunit, ← mul_assoc]
    exact mul_le_mul_of_nonneg_right (by linarith) hquarter.le
  rw [le_div_iff₀ (by positivity), div_le_iff₀ (by positivity), lt_div_iff₀ (by positivity),
    div_lt_iff₀ (by positivity), ← upper_mul_quarter]
  exact ⟨hlower.trans hw.lower, hw.upper, fun hodd =>
    ⟨hlower.trans_lt (hw.inside hodd).1, (hw.inside hodd).2⟩⟩

/-- Below the least significand of 53 digits, a unit is only half as large. -/
theorem near_of_narrow (hm : x.m = 2 ^ 52) (hnarrow : x.narrowBelow = true) (hw : x.Holds w) :
    ((2 ^ 53 : Nat) : ℚ) - 1 / 2 ≤ w / 2 ^ (x.q - 1) := by
  have hunit : (2 : ℚ) ^ (x.q - 1) = 2 ^ 1 * 2 ^ (x.q - 2) := by
    rw [← two_zpow]
    congr 1
    omega
  have hlower : (x.lower : ℚ) = 2 ^ 54 - 1 := by
    rw [lower_eq, hm, hnarrow, if_pos rfl]
    norm_num
  rw [le_div_iff₀ (by positivity)]
  refine le_trans (le_of_eq ?_) hw.lower
  rw [hunit, hlower]
  push_cast
  ring

theorem shiftToTargetExponent_of_le (h : targetOf m e ≤ e) :
    shiftToTargetExponent .binary64 m e accuracy = (.ofMantissaAndAccuracy m accuracy, e) := by
  rw [shiftToTargetExponent_eq, Int.toNat_of_nonpos (by omega)]
  exact Prod.ext rfl (Int.add_zero e)

/-- A result stands for the number under the target exponent before it is rounded. -/
theorem Represents.exists_shifted (h : Represents (.ofMantissaAndAccuracy m accuracy) (w / 2 ^ e))
    (he : e ≤ targetOf m e) : ∃ em, Represents em (w / 2 ^ targetOf m e) ∧
      shiftToTargetExponent .binary64 m e accuracy = (em, targetOf m e) := by
  refine ⟨ExtendedMantissa.ofMantissaAndAccuracy m accuracy >>> (targetOf m e - e).toNat, ?_, ?_⟩
  · have hexponent : (2 : ℚ) ^ targetOf m e = 2 ^ e * 2 ^ (targetOf m e - e).toNat := by
      rw [mul_comm, ← two_zpow]
      congr 1
      omega
    rw [hexponent, ← div_div]
    exact h.shiftRight _
  · rw [shiftToTargetExponent_eq]
    congr 1
    omega

/-- Whatever lies in the rounding interval of a canonical magnitude is rounded to it. -/
theorem roundWithAccuracy_eq (canonical : Canonical x)
    (h : Represents (.ofMantissaAndAccuracy m accuracy) (w / 2 ^ e)) (he : e ≤ targetOf m e)
    (hw : x.Holds w) (sign : Sign) :
    roundWithAccuracy .binary64 sign m e accuracy = .finite sign x.m x.q canonical.pos := by
  obtain ⟨em, hshift, hfirst⟩ := h.exists_shifted he
  rcases targetOf_cases canonical h he hw with hq | ⟨hq, hm, hleast, hlt⟩
  · rw [hq] at hshift hfirst
    obtain ⟨hle, hge, hodd⟩ := near_of_holds canonical.pos hw
    have hlog : x.m.log2 < 53 := (Nat.log2_lt canonical.pos.ne').2 canonical.lt
    have htarget : targetOf x.m x.q ≤ x.q := max_le (by omega) canonical.least
    have hsecond : shiftToTargetExponent .binary64 em.roundedMantissa x.q .exact =
        (.ofMantissaAndAccuracy x.m .exact, x.q) := by
      rw [hshift.roundedMantissa_eq hle hge hodd]
      exact shiftToTargetExponent_of_le htarget
    exact roundWithAccuracy_of_shift canonical.pos hfirst hsecond rfl
  · -- the significand is rounded up to one digit too many, and the last one is cut off
    rw [hq] at hshift hfirst
    have hle := near_of_narrow hm (canonical.narrow.2 ⟨hm, hleast.ne'⟩) hw
    have hge : w / 2 ^ (x.q - 1) ≤ (2 ^ 53 : Nat) + 1 / 2 := by
      rw [div_le_iff₀ (by positivity)]
      have hpower : (2 : ℚ) ^ (53 + (x.q - 1)) = 2 ^ 53 * 2 ^ (x.q - 1) := two_zpow 53 _
      rw [hpower] at hlt
      refine hlt.le.trans (mul_le_mul_of_nonneg_right ?_ (by positivity))
      norm_num
    have htarget : targetOf (2 ^ 53) (x.q - 1) = x.q := by
      rw [targetOf, Nat.log2_two_pow]
      omega
    have hsecond : shiftToTargetExponent .binary64 em.roundedMantissa (x.q - 1) .exact =
        (ExtendedMantissa.ofMantissaAndAccuracy (2 ^ 53) .exact >>> 1, x.q) := by
      rw [hshift.roundedMantissa_eq hle hge fun hodd => by contradiction,
        shiftToTargetExponent_eq, htarget, Int.sub_sub_self]
      exact Prod.ext rfl (Int.sub_add_cancel x.q 1)
    exact roundWithAccuracy_of_shift canonical.pos hfirst hsecond hm.symm

end

end EventChains.Binary64
