import EventChains.Decimal.Reader
import EventChains.Proofs.Binary64.Rounding

/-!
# Decimals are read as the nearest number

A decimal in the rounding interval of a canonical magnitude is read as the number with that
magnitude (`unpack_ofDigits`), whichever way its digits and its exponent are brought together: by
one exact product that is rounded, by one exact quotient, or for few digits and a small exponent by
one operation on two numbers that stand for them exactly.
-/

namespace EventChains.Binary64

open EventChains.Decimal Float.Model Float.Model.UnpackedFloat

variable {x : Magnitude} {m n : Nat} {e f : Int}

/-- An exact product, with digits enough to be rounded. -/
theorem represents_product (hdigits : 2 ^ 52 ≤ m * n) :
    Represents (.ofMantissaAndAccuracy (m * n) .exact)
        ((m * 2 ^ e * (n * 2 ^ f) : ℚ) / 2 ^ (e + f)) ∧
      e + f ≤ targetOf (m * n) (e + f) := by
  have hproduct : (m * 2 ^ e * (n * 2 ^ f) : ℚ) / 2 ^ (e + f) = (m * n : Nat) := by
    rw [zpow_add₀ two_ne_zero]
    push_cast
    field_simp
  have hlog : 52 ≤ (m * n).log2 := (Nat.le_log2 (by omega)).2 hdigits
  exact ⟨hproduct ▸ represents_exact _, le_max_of_le_left (by omega)⟩

/-- An exact product is rounded once. -/
theorem mul_finite {hm : 0 < m} {hn : 0 < n} (canonical : Canonical x)
    (hw : x.Holds (m * 2 ^ e * (n * 2 ^ f)))
    (hdigits : 2 ^ 52 ≤ m * n) :
    UnpackedFloat.mul .binary64 (.finite .positive m e hm) (.finite .positive n f hn) =
      .finite .positive x.m x.q canonical.pos := by
  obtain ⟨hproduct, htarget⟩ := represents_product hdigits
  exact roundWithAccuracy_eq canonical hproduct htarget hw .positive

/-- A dividend with enough digits has a quotient of 53 digits or more. -/
theorem le_div_of_log2 (hm : 0 < m) (hn : 0 < n) (shift : Nat)
    (h : 53 + n.log2 ≤ m.log2 + shift) : 2 ^ 52 ≤ m * 2 ^ shift / n := by
  rw [Nat.le_div_iff_mul_le hn]
  calc 2 ^ 52 * n ≤ 2 ^ 52 * 2 ^ (n.log2 + 1) :=
        Nat.mul_le_mul_left _ Nat.lt_log2_self.le
    _ = 2 ^ (53 + n.log2) := by
        rw [← pow_add]
        congr 1
        omega
    _ ≤ 2 ^ (m.log2 + shift) := Nat.pow_le_pow_right (by decide) h
    _ = 2 ^ m.log2 * 2 ^ shift := pow_add ..
    _ ≤ m * 2 ^ shift := Nat.mul_le_mul_right _ (Nat.log2_self_le hm.ne')

/-- An exact quotient is rounded once. -/
theorem div_finite {hm : 0 < m} {hn : 0 < n} (canonical : Canonical x)
    (hw : x.Holds (m * 2 ^ e / (n * 2 ^ f))) :
    UnpackedFloat.div .binary64 (.finite .positive m e hm) (.finite .positive n f hn) =
      .finite .positive x.m x.q canonical.pos := by
  generalize ht : min (e - f) (max (m.log2 + 1 + e - (n.log2 + 1 + f) - 53) (-1074)) = t
  have hcore : divCore .binary64 m e n f = (m <<< (e - f - t).toNat / n, t,
      accuracyOfFraction (m <<< (e - f - t).toNat % n) n) := by
    rw [← ht]
    rfl
  have hquotient : (m * 2 ^ e / (n * 2 ^ f) / 2 ^ t : ℚ) = (m <<< (e - f - t).toNat : Nat) / n := by
    have hpower : (2 : ℚ) ^ e = 2 ^ (e - f - t).toNat * (2 ^ f * 2 ^ t) := by
      rw [← zpow_add₀ two_ne_zero, ← two_zpow]
      congr 1
      omega
    rw [hpower, Nat.shiftLeft_eq]
    push_cast
    field_simp
  have htarget : t ≤ targetOf (m <<< (e - f - t).toNat / n) t := by
    by_cases hleast : t ≤ -1074
    · exact le_max_of_le_right hleast
    · have hdigits := le_div_of_log2 hm hn (e - f - t).toNat (by omega)
      rw [← Nat.shiftLeft_eq] at hdigits
      have hlog := (Nat.le_log2 (by omega)).2 hdigits
      exact le_max_of_le_left (by omega)
  show (match divCore .binary64 m e n f with
    | (m, e, accuracy) => roundWithAccuracy .binary64 .positive m e accuracy) = _
  rw [hcore]
  refine roundWithAccuracy_eq canonical ?_ htarget hw .positive
  rw [hquotient]
  exact represents_fraction _ hn

/-- A number with at most 53 digits has 53 when they are moved up. -/
theorem le_shifted (hpos : 0 < n) (hlt : n < 2 ^ 53) : 2 ^ 52 ≤ n <<< (52 - n.log2) := by
  have hlog : n.log2 < 53 := (Nat.log2_lt hpos.ne').2 hlt
  rw [Nat.shiftLeft_eq]
  calc 2 ^ 52 = 2 ^ n.log2 * 2 ^ (52 - n.log2) := by
        rw [← pow_add]
        congr 1
        omega
    _ ≤ n * 2 ^ (52 - n.log2) := Nat.mul_le_mul_right _ (Nat.log2_self_le hpos.ne')

theorem canonical_shifted (hpos : 0 < n) (hlt : n < 2 ^ 53) :
    Canonical ⟨n <<< (52 - n.log2), -(52 - n.log2 : Nat), n <<< (52 - n.log2) = 2 ^ 52⟩ := by
  have hlog : n.log2 < 53 := (Nat.log2_lt hpos.ne').2 hlt
  have hle := le_shifted hpos hlt
  have hlt : n <<< (52 - n.log2) < 2 ^ 53 := by
    rw [Nat.shiftLeft_eq]
    calc n * 2 ^ (52 - n.log2) < 2 ^ (n.log2 + 1) * 2 ^ (52 - n.log2) :=
          Nat.mul_lt_mul_of_pos_right Nat.lt_log2_self (by positivity)
      _ = 2 ^ 53 := by
          rw [← pow_add]
          congr 1
          omega
  refine ⟨Nat.lt_of_lt_of_le (by decide) hle, hlt, ?_, ?_, Or.inl hle, ?_⟩
  · show -1074 ≤ -((52 - n.log2 : Nat) : Int)
    omega
  · show -((52 - n.log2 : Nat) : Int) ≤ 971
    omega
  · rw [decide_eq_true_eq]
    refine ⟨fun h => ⟨h, ?_⟩, And.left⟩
    show -((52 - n.log2 : Nat) : Int) ≠ -1074
    omega

/-- A natural number is rounded after its digits have been moved up to 53. -/
theorem ofUInt64_eq_round (hpos : 0 < n) (hlt : n < 2 ^ 53) :
    UnpackedFloat.ofUInt64 .binary64 n.toUInt64 =
      roundWithAccuracy .binary64 .positive (n <<< (52 - n.log2)) (-(52 - n.log2 : Nat))
        .exact := by
  have hlog : n.log2 < 53 := (Nat.log2_lt hpos.ne').2 hlt
  have hshift : (0 - targetOf n 0).toNat = 52 - n.log2 := by
    rw [targetOf]
    omega
  have hword : n.toUInt64.toNat = n := UInt64.toNat_ofNat_of_lt' (Nat.lt_trans hlt (by decide))
  rw [UnpackedFloat.ofUInt64, hword, UnpackedFloat.ofNat, UnpackedFloat.ofInt,
    UnpackedFloat.normalize, Int.compare_eq_gt.2 (by omega)]
  show roundWithAccuracy .binary64 .positive (n <<< (0 - targetOf n 0).toNat)
    (0 - (0 - targetOf n 0).toNat) .exact = _
  rw [hshift, Int.zero_sub]

/-- A number below `2 ^ 53` is kept. -/
theorem unpack_toFloat (hpos : 0 < n) (hlt : n < 2 ^ 53) :
    ∃ y : Magnitude, ∃ canonical : Canonical y, 2 ^ 52 ≤ y.m ∧ y.worth = n ∧
      n.toUInt64.toFloat.toModel.unpack = .finite .positive y.m y.q canonical.pos := by
  have canonical := canonical_shifted hpos hlt
  have hworth : Magnitude.worth ⟨n <<< (52 - n.log2), -(52 - n.log2 : Nat),
      n <<< (52 - n.log2) = 2 ^ 52⟩ = n := by
    rw [Magnitude.worth, Nat.shiftLeft_eq, zpow_neg, zpow_natCast]
    push_cast
    field_simp
  have hholds := Magnitude.holds_worth canonical.pos
  rw [hworth] at hholds
  have hlog : 52 ≤ (n <<< (52 - n.log2)).log2 :=
    (Nat.le_log2 canonical.pos.ne').2 (le_shifted hpos hlt)
  have hexact : ((n : ℚ) / 2 ^ (-(52 - n.log2 : Nat) : Int)) = (n <<< (52 - n.log2) : Nat) := by
    rw [← hworth, Magnitude.worth, mul_div_cancel_right₀ _ (by positivity)]
  refine ⟨_, canonical, le_shifted hpos hlt, hworth, ?_⟩
  show UnpackedFloat.unpack .binary64
    (UnpackedFloat.pack .binary64 (UnpackedFloat.ofUInt64 .binary64 n.toUInt64)) = _
  rw [ofUInt64_eq_round hpos hlt, roundWithAccuracy_eq canonical ?_ ?_ hholds .positive]
  · exact unpack_pack canonical .positive
  · rw [hexact]
    exact represents_exact _
  · exact le_max_of_le_left (by omega)

/-- The bits of a power of ten that is a binary64 number. -/
def powerBits (k : Fin Float.exactlyRepresentablePowersOfTen.size) : UInt64 :=
  Float.exactlyRepresentablePowersOfTen[k].toBits

theorem powerBits_spec : ∀ k,
    (UnpackedFloat.unpack .binary64 (powerBits k).toBitVec).isFinite = true ∧
      powerBits k < 0x8000000000000000 ∧
      (Magnitude.ofBits (powerBits k)).m * 2 ^ (Magnitude.ofBits (powerBits k)).q.toNat =
        10 ^ k.val * 2 ^ (-(Magnitude.ofBits (powerBits k)).q).toNat := by
  decide +kernel

/-- The powers of ten up to `10 ^ 22` are kept. -/
theorem unpack_powerOfTen {k : Nat} (hk : k < Float.exactlyRepresentablePowersOfTen.size) :
    ∃ y : Magnitude, ∃ canonical : Canonical y, y.worth = 10 ^ k ∧
      Float.exactlyRepresentablePowersOfTen[k].toModel.unpack =
        .finite .positive y.m y.q canonical.pos := by
  obtain ⟨hfinite, hsign, hvalue⟩ := powerBits_spec ⟨k, hk⟩
  obtain ⟨hzero, -⟩ | ⟨canonical, _, hunpack⟩ := unpack_cases _ hfinite
  · rw [hzero, Nat.zero_mul] at hvalue
    exact absurd hvalue.symm (by positivity)
  · refine ⟨_, canonical, ?_, hunpack.trans ?_⟩
    · rw [Magnitude.worth, Magnitude.zpow_eq_div, ← mul_div_assoc, div_eq_iff (by positivity)]
      exact_mod_cast hvalue
    · rw [signOf, if_neg (UInt64.not_le.2 hsign)]

/-! ## Digits and an exponent of ten -/

theorem ten_zpow (k : Int) : (10 : ℚ) ^ k = 5 ^ k * 2 ^ k := by
  rw [← mul_zpow]
  norm_num

/-- An exponent that is too great for all numbers is one for all intervals. -/
theorem le_of_holds_scientific (canonical : Canonical x) (hm : 0 < m)
    (hw : x.Holds (m * 10 ^ e)) : e ≤ 2048 := by
  by_contra hgreat
  have hone : (1 : ℚ) ≤ 5 ^ e := one_le_zpow₀ (by norm_num) (by omega)
  have hm : (1 : ℚ) ≤ m := by exact_mod_cast hm
  have hle : (2 : ℚ) ^ e ≤ m * 10 ^ e := by
    rw [ten_zpow, ← mul_assoc]
    exact le_mul_of_one_le_left (by positivity) (one_le_mul_of_one_le_of_one_le hm hone)
  have := (zpow_lt_zpow_iff_right₀ one_lt_two).1 (hle.trans_lt (lt_of_holds canonical hw))
  have := canonical.greatest
  omega

/-- An exponent that is too small for all numbers is one for all intervals. -/
theorem ge_of_holds_scientific (canonical : Canonical x) (hw : x.Holds (m * 10 ^ e)) :
    -(2048 + m.log2) ≤ e := by
  by_contra hsmall
  have hone : (5 : ℚ) ^ e ≤ 1 := zpow_le_one_of_nonpos₀ (by norm_num) (by omega)
  have hm : (m : ℚ) < 2 ^ (m.log2 + 1) := by exact_mod_cast Nat.lt_log2_self
  have hlt : (m * 10 ^ e : ℚ) < 2 ^ ((m.log2 + 1 : Nat) + e) := by
    rw [ten_zpow, two_zpow, ← mul_assoc]
    refine mul_lt_mul_of_pos_right (lt_of_le_of_lt ?_ hm) (by positivity)
    exact mul_le_of_le_one_right (by positivity) hone
  have hhalf : (2 : ℚ) ^ (x.q - 1) ≤ m * 10 ^ e := by
    have hone : (1 : ℚ) ≤ x.m := by exact_mod_cast canonical.pos
    have hnear := (near_of_holds canonical.pos hw).1
    rw [zpow_sub_one₀ two_ne_zero, ← le_div_iff₀' (by positivity)]
    linarith
  have := (zpow_lt_zpow_iff_right₀ one_lt_two).1 (hhalf.trans_lt hlt)
  have := canonical.least
  omega

/-- A decimal in the rounding interval is rounded to the magnitude. -/
theorem ofScientific_eq (canonical : Canonical x) (hm : 0 < m) (hw : x.Holds (m * 10 ^ e)) :
    UnpackedFloat.ofScientific .binary64 m e = .finite .positive x.m x.q canonical.pos := by
  have hgreatest := le_of_holds_scientific canonical hm hw
  have hleast := ge_of_holds_scientific canonical hw
  rw [UnpackedFloat.ofScientific, dif_neg hm.ne', if_neg (show ¬ e > 2 ^ 11 by omega),
    if_neg (show ¬ e < -(2 ^ 11 + m.log2) by omega)]
  split
  · rename_i hnonneg
    refine mul_finite canonical ?_ ?_
    · have hvalue : ((m <<< 53 : Nat) * 2 ^ (-(53 : Nat) : Int) *
          ((10 ^ e.toNat : Nat) * 2 ^ (0 : Int)) : ℚ) = m * 10 ^ e := by
        rw [Nat.shiftLeft_eq, zpow_neg, zpow_natCast, zpow_zero]
        nth_rewrite 2 [← Int.toNat_of_nonneg hnonneg]
        rw [zpow_natCast]
        push_cast
        field_simp
        norm_num
      rw [← hvalue] at hw
      exact hw
    · rw [Nat.shiftLeft_eq]
      calc 2 ^ 52 ≤ 1 * 2 ^ 53 * 1 := by decide
        _ ≤ m * 2 ^ 53 * 10 ^ e.toNat :=
            Nat.mul_le_mul (Nat.mul_le_mul_right _ hm) (Nat.pow_pos (by decide))
  · rename_i hneg
    have hvalue : (m * 2 ^ (0 : Int) / ((10 ^ (-e).toNat : Nat) * 2 ^ (0 : Int)) : ℚ) =
        m * 10 ^ e := by
      rw [Magnitude.zpow_eq_div 10 e, Int.toNat_of_nonpos (by omega : e ≤ 0)]
      push_cast
      field_simp
    rw [← hvalue] at hw
    exact div_finite canonical hw

/-- A result that is a canonical magnitude is kept when it is packed. -/
theorem unpack_of_eq (canonical : Canonical x) {result : UnpackedFloat}
    (h : result = .finite .positive x.m x.q canonical.pos) :
    (Float.Model.pack result).unpack = .finite .positive x.m x.q canonical.pos := by
  rw [h]
  exact unpack_pack canonical .positive

/-- An exponent is put together from its sign and its amount. -/
theorem signed_natAbs (e : Int) :
    (if decide (e < 0) = true then Int.negOfNat e.natAbs else Int.ofNat e.natAbs) = e := by
  split
  · rename_i hneg
    have hneg : e < 0 := of_decide_eq_true hneg
    rw [Int.negOfNat_eq]
    show -(e.natAbs : Int) = e
    omega
  · rename_i hnonneg
    have hnonneg : ¬ e < 0 := fun h => hnonneg (decide_eq_true h)
    show (e.natAbs : Int) = e
    omega

/-- A decimal in the rounding interval of a canonical magnitude is read as the number with that
magnitude. -/
theorem unpack_ofDigits (canonical : Canonical x) (hm : 0 < m) (hw : x.Holds (m * 10 ^ e)) :
    (Decimal.ofDigits m e).toModel.unpack = .finite .positive x.m x.q canonical.pos := by
  rw [Decimal.ofDigits, Float.ofScientific]
  split
  · rename_i hshort
    obtain ⟨y, hy, hfull, hworth, hdigits⟩ := unpack_toFloat hm hshort.1
    obtain ⟨z, hz, hpower, hten⟩ := unpack_powerOfTen (Nat.lt_succ_of_le hshort.2)
    dsimp only
    split
    · rename_i hneg
      have hneg : e < 0 := of_decide_eq_true hneg
      have hvalue : (y.m * 2 ^ y.q / (z.m * 2 ^ z.q) : ℚ) = m * 10 ^ e := by
        rw [← Magnitude.worth, ← Magnitude.worth, hworth, hpower, div_eq_mul_inv, ← zpow_natCast,
          ← zpow_neg]
        congr 2
        omega
      rw [← hvalue] at hw
      exact unpack_of_eq canonical
        ((congrArg₂ (UnpackedFloat.div .binary64) hdigits hten).trans (div_finite canonical hw))
    · rename_i hnonneg
      have hnonneg : ¬ e < 0 := fun h => hnonneg (decide_eq_true h)
      have hvalue : (y.m * 2 ^ y.q * (z.m * 2 ^ z.q) : ℚ) = m * 10 ^ e := by
        rw [← Magnitude.worth, ← Magnitude.worth, hworth, hpower, ← zpow_natCast]
        congr 2
        omega
      rw [← hvalue] at hw
      have hfull := hfull.trans (Nat.le_mul_of_pos_right y.m hz.pos)
      exact unpack_of_eq canonical
        ((congrArg₂ (UnpackedFloat.mul .binary64) hdigits hten).trans
          (mul_finite canonical hw hfull))
  · dsimp only
    rw [signed_natAbs]
    exact unpack_of_eq canonical (ofScientific_eq canonical hm hw)

/-- The positive number that is nearest to a rational one; at equal distance, the one with the even
significand. -/
def IsNearest (x : Float) (w : ℚ) : Prop :=
  ∃ (nearest : Magnitude) (canonical : Canonical nearest), nearest.Holds w ∧
    x.toModel.unpack = .finite .positive nearest.m nearest.q canonical.pos

theorem IsNearest.isFinite {x : Float} {w : ℚ} (h : IsNearest x w) : x.isFinite = true := by
  obtain ⟨nearest, canonical, -, hunpack⟩ := h
  exact isFinite_of_finite hunpack

end EventChains.Binary64
