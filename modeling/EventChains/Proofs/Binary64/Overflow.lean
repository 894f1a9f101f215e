import EventChains.Proofs.Binary64.Difference
import EventChains.Proofs.Binary64.Nearest

/-!
# Numbers beyond all others

A positive number is rounded to a magnitude as long as it lies below `overflow`, half a unit above
the greatest of them (`exists_holds_of_lt`). From there on it is rounded to a result that would have
a greater exponent, and is packed as infinity (`unpack_mul_of_overflow`).
-/

namespace EventChains.Binary64

open EventChains.Decimal Float.Model Float.Model.UnpackedFloat

/-- The least number that is rounded to infinity, half a unit above the greatest magnitude. -/
def overflow : ℚ :=
  (2 ^ 53 - 1 / 2) * 2 ^ (971 : Int)

theorem overflow_pos : 0 < overflow := by
  rw [overflow]
  positivity

/-- The greatest magnitude. -/
def greatest : Magnitude :=
  ⟨2 ^ 53 - 1, 971, false⟩

variable {m k : Nat} {e s : Int} {sign : Sign} {accuracy : Accuracy} {w : ℚ}

theorem canonical_greatest : Canonical greatest := by
  constructor <;> decide

theorem greatest_upper : (greatest.upper : ℚ) * 2 ^ (greatest.q - 2) = overflow := by
  rw [upper_mul_quarter, overflow]
  congr 1
  norm_num [greatest]

/-- Each number below is rounded to a magnitude. -/
theorem exists_holds_of_lt (hk : 0 < k) (hleast : -1074 ≤ s) (hlt : k * 2 ^ s < overflow) :
    ∃ x, Canonical x ∧ x.Holds (k * 2 ^ s) := by
  rcases le_or_gt ((k : ℚ) * 2 ^ s) greatest.worth with hle | hgt
  · exact exists_holds hk hleast canonical_greatest hle
  · have hlower := (Magnitude.holds_worth canonical_greatest.pos).lower
    rw [← greatest_upper] at hlt
    exact ⟨greatest, canonical_greatest, hlower.trans hgt.le, hlt.le,
      fun _ => ⟨hlower.trans_lt hgt, hlt⟩⟩

/-- No magnitude is packed with a greater exponent than the greatest one. -/
theorem pack_of_greater {q : Int} {hpos : 0 < m} (hq : 972 ≤ q) :
    UnpackedFloat.pack .binary64 (.finite sign m q hpos) = packedInfinity .binary64 sign := by
  unfold UnpackedFloat.pack
  dsimp only
  rw [if_pos]
  rw [show Format.binary64.exponentBias = 1023 from rfl]
  show 2 ^ 11 ≤ (q + 1023 + (52 : Nat)).toNat + 1
  omega

/-- From the least number that is rounded to infinity on, a number is rounded to one of 54 digits if
its exponent is not too great as it is. -/
theorem le_of_overflow (hw : overflow ≤ w) (he : e ≤ 971) (hge : w / 2 ^ e ≤ k + 1 / 2)
    (hodd : k % 2 = 1 → w / 2 ^ e < k + 1 / 2) : 2 ^ 53 ≤ k := by
  have hunit : (2 : ℚ) ^ e ≤ 2 ^ (971 : Int) := zpow_le_zpow_right₀ one_le_two he
  have hmost : (2 : ℚ) ^ 53 - 1 / 2 ≤ w / 2 ^ e := by
    rw [le_div_iff₀ (by positivity)]
    exact (mul_le_mul_of_nonneg_left hunit (by norm_num)).trans hw
  have hk : 2 ^ 53 - 1 ≤ k := le_of_near (le_trans (by norm_num) hmost) hge
  -- half a unit below `2 ^ 53` the even neighbour is nearest
  by_contra hless
  obtain rfl : k = 2 ^ 53 - 1 := by omega
  have hlt := hodd (by decide)
  norm_num at hlt hmost
  linarith

/-- Digits that are cut off leave the leading one. -/
theorem mantissa_shiftRight_pos {n : Nat} (hk : 0 < k) (hn : n ≤ k.log2) :
    0 < (ExtendedMantissa.ofMantissaAndAccuracy k .exact >>> n).mantissa := by
  have hdigits : (1 : ℚ) ≤ k / 2 ^ n := by
    rw [one_le_div (by positivity)]
    exact_mod_cast (Nat.pow_le_pow_right (by decide) hn).trans (Nat.log2_self_le hk.ne')
  have hone : 1 < (ExtendedMantissa.ofMantissaAndAccuracy k .exact >>> n).mantissa + 1 := by
    exact_mod_cast hdigits.trans_lt ((represents_exact k).shiftRight n).lt_mantissa
  omega

/-- A significand that is too long is cut off to 53 digits. -/
theorem shiftToTargetExponent_of_long {t : Int} (hk : 2 ^ 52 ≤ k) (ht : -1074 ≤ t) :
    shiftToTargetExponent .binary64 k t .exact =
      (ExtendedMantissa.ofMantissaAndAccuracy k .exact >>> (k.log2 - 52),
        t + (k.log2 - 52 : Nat)) := by
  have hlog : 52 ≤ k.log2 := (Nat.le_log2 (by omega)).2 hk
  have hshift : (targetOf k t - t).toNat = k.log2 - 52 := by
    rw [targetOf]
    omega
  rw [shiftToTargetExponent_eq, hshift]

/-- From the least number that is rounded to infinity on, a number has 53 digits under its target
exponent, which is the greatest one or greater. -/
theorem targetOf_of_overflow
    (h : Represents (.ofMantissaAndAccuracy m accuracy) (w / 2 ^ e)) (he : e ≤ targetOf m e)
    (hw : overflow ≤ w) : 971 ≤ targetOf m e ∧ 2 ^ 52 ≤ w / 2 ^ targetOf m e := by
  obtain ⟨hlt, hle⟩ := h.bounds
  have hleading : (1023 : Int) < m.log2 + 1 + e := by
    refine (zpow_lt_zpow_iff_right₀ one_lt_two).1 (lt_of_le_of_lt ?_ (hw.trans_lt hlt))
    have hpower : (2 : ℚ) ^ (1023 : Int) = 2 ^ 52 * 2 ^ (971 : Int) := two_zpow 52 971
    rw [hpower, overflow]
    exact mul_le_mul_of_nonneg_right (by norm_num) (by positivity)
  have hm : m ≠ 0 := by
    rintro rfl
    rw [targetOf, Nat.log2_zero] at he
    rw [Nat.log2_zero] at hleading
    omega
  have hexponent : (52 : Nat) + targetOf m e = m.log2 + e := by
    rw [targetOf]
    omega
  refine ⟨by omega, ?_⟩
  rw [le_div_iff₀ (by positivity), ← two_zpow, hexponent]
  exact hle hm

/-- From the least number that is rounded to infinity on, the result has an exponent that is greater
than that of all magnitudes. -/
theorem roundWithAccuracy_of_overflow
    (h : Represents (.ofMantissaAndAccuracy m accuracy) (w / 2 ^ e)) (he : e ≤ targetOf m e)
    (hw : overflow ≤ w) (sign : Sign) :
    ∃ m' q' hpos, roundWithAccuracy .binary64 sign m e accuracy = .finite sign m' q' hpos ∧
      972 ≤ q' := by
  obtain ⟨em, hshift, hfirst⟩ := h.exists_shifted he
  obtain ⟨htarget, hlow⟩ := targetOf_of_overflow h he hw
  generalize targetOf m e = t at *
  obtain ⟨k, hle, hge, hodd⟩ := exists_nearest (le_trans (by positivity) hlow)
  obtain rfl : em.roundedMantissa = k := hshift.roundedMantissa_eq hle hge hodd
  have hk : 2 ^ 52 ≤ em.roundedMantissa := le_of_near (by exact_mod_cast hlow) hge
  have hsecond := shiftToTargetExponent_of_long hk (by omega : -1074 ≤ t)
  have hpos := mantissa_shiftRight_pos (by omega) (Nat.sub_le em.roundedMantissa.log2 52)
  refine ⟨_, _, hpos, roundWithAccuracy_of_shift hpos hfirst hsecond rfl, ?_⟩
  -- under the greatest exponent itself the significand has become too long
  by_cases ht : t ≤ 971
  · have hlong := le_of_overflow hw ht hge fun hk => (hodd hk).2
    have := (Nat.le_log2 (by omega)).2 hlong
    omega
  · omega

/-- A product that is too great is packed as infinity. -/
theorem unpack_mul_of_overflow {n : Nat} {f : Int} {hm : 0 < m} {hn : 0 < n}
    (hdigits : 2 ^ 52 ≤ m * n) (hw : overflow ≤ m * 2 ^ e * (n * 2 ^ f)) :
    (Float.Model.pack (UnpackedFloat.mul .binary64 (.finite .positive m e hm)
      (.finite .positive n f hn))).unpack = .infinity .positive := by
  obtain ⟨hproduct, htarget⟩ := represents_product hdigits
  obtain ⟨m', q', hpos, hround, hq⟩ := roundWithAccuracy_of_overflow hproduct htarget hw .positive
  have hmul : UnpackedFloat.mul .binary64 (.finite .positive m e hm) (.finite .positive n f hn) =
      .finite .positive m' q' hpos := hround
  rw [hmul]
  show UnpackedFloat.unpack .binary64 (UnpackedFloat.pack .binary64 _) = _
  rw [pack_of_greater hq]
  rfl

end EventChains.Binary64
