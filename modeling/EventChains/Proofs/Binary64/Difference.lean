import EventChains.Proofs.Binary64.Rounding
import Mathlib

/-!
# Differences

Every number with finitely many binary digits that is not too great lies in the rounding interval of
a canonical magnitude (`exists_holds`), and of one only (`eq_of_holds`). The difference of two
numbers is the magnitude in whose interval the exact difference lies, with its sign (`sub_cases`).
-/

namespace EventChains.Binary64

open EventChains.Decimal Float.Model Float.Model.UnpackedFloat

variable {x y : Magnitude} {v w : ℚ} {k : Nat} {s : Int}

/-! ## Rounding intervals -/

/-- What lies between two numbers of a rounding interval lies in it. -/
theorem holds_of_between {u : ℚ} (hv : x.Holds v) (hw : x.Holds w) (hle : v ≤ u) (hge : u ≤ w) :
    x.Holds u where
  lower := hv.lower.trans hle
  upper := hge.trans hw.upper
  inside hodd := ⟨(hv.inside hodd).1.trans_le hle, hge.trans_lt (hw.inside hodd).2⟩

theorem worth_pos (canonical : Canonical x) : 0 < x.worth := by
  have hpos : (0 : ℚ) < x.m := by exact_mod_cast canonical.pos
  exact mul_pos hpos (by positivity)

/-- A number at most half a unit away from a significand lies in the rounding interval, and above
the least significand of 53 digits it must not be below it. -/
theorem holds_of_near (hpos : 0 < x.m) (hle : (x.m : ℚ) - 1 / 2 ≤ w / 2 ^ x.q)
    (hge : w / 2 ^ x.q ≤ x.m + 1 / 2)
    (hodd : x.m % 2 = 1 → (x.m : ℚ) - 1 / 2 < w / 2 ^ x.q ∧ w / 2 ^ x.q < x.m + 1 / 2)
    (hnarrow : x.narrowBelow = true → x.m % 2 = 0 ∧ (x.m : ℚ) - 1 / 4 ≤ w / 2 ^ x.q) :
    x.Holds w := by
  have hunit := four_quarters x.q
  have hquarter : (0 : ℚ) < 2 ^ (x.q - 2) := by positivity
  have hw : w = w / 2 ^ x.q * 4 * 2 ^ (x.q - 2) := by
    rw [hunit]
    field_simp
  generalize w / 2 ^ x.q = part at *
  have hupper : (x.upper : ℚ) = 4 * x.m + 2 := by
    rw [Magnitude.upper]
    push_cast
    rfl
  have hlower : (x.lower : ℚ) = 4 * x.m - if x.narrowBelow then 1 else 2 := by
    rw [lower_eq, Nat.cast_sub (by split <;> omega)]
    push_cast
    rfl
  rw [hw]
  refine ⟨?_, ?_, fun h => ⟨?_, ?_⟩⟩
  · refine mul_le_mul_of_nonneg_right ?_ hquarter.le
    rw [hlower]
    split
    · rename_i h
      linarith [(hnarrow h).2]
    · linarith
  · refine mul_le_mul_of_nonneg_right ?_ hquarter.le
    rw [hupper]
    linarith
  · refine mul_lt_mul_of_pos_right ?_ hquarter
    rw [hlower, if_neg fun hn => by have := (hnarrow hn).1; omega]
    linarith [(hodd h).1]
  · refine mul_lt_mul_of_pos_right ?_ hquarter
    rw [hupper]
    linarith [(hodd h).2]

/-! ## The magnitude that a number is rounded to -/

/-- Some natural number is nearest; at equal distance an even one is. -/
theorem exists_nearest (hv : 0 ≤ v) : ∃ m : Nat, (m : ℚ) - 1 / 2 ≤ v ∧ v ≤ m + 1 / 2 ∧
    (m % 2 = 1 → (m : ℚ) - 1 / 2 < v ∧ v < m + 1 / 2) := by
  have hle : (⌊v⌋₊ : ℚ) ≤ v := Nat.floor_le hv
  have hlt : v < ⌊v⌋₊ + 1 := Nat.lt_floor_add_one v
  generalize ⌊v⌋₊ = below at hle hlt
  rcases lt_trichotomy v (below + 1 / 2) with hlow | hhalf | hhigh
  · exact ⟨below, by linarith, by linarith, fun _ => ⟨by linarith, by linarith⟩⟩
  · rcases Nat.mod_two_eq_zero_or_one below with heven | hodd
    · exact ⟨below, by linarith, by linarith, fun hodd => by omega⟩
    · refine ⟨below + 1, ?_, ?_, fun hodd => by omega⟩ <;> push_cast <;> linarith
  · refine ⟨below + 1, ?_, ?_, fun _ => ⟨?_, ?_⟩⟩ <;> push_cast <;> linarith

/-- A significand of 53 digits, or of fewer under the least exponent, is canonical. -/
theorem canonical_of_full {m : Nat} {q : Int} (hpos : 0 < m) (hlt : m < 2 ^ 53) (hleast : -1074 ≤ q)
    (hgreatest : q ≤ 971) (hfull : 2 ^ 52 ≤ m ∨ q = -1074) :
    Canonical ⟨m, q, m = 2 ^ 52 && q ≠ -1074⟩ where
  pos := hpos
  lt := hlt
  least := hleast
  greatest := hgreatest
  full := hfull
  narrow := by simp

/-- A canonical magnitude is worth less than `2 ^ 1024`. -/
theorem worth_lt (canonical : Canonical x) : x.worth < 2 ^ (53 + x.q) :=
  lt_of_holds canonical (Magnitude.holds_worth canonical.pos)

/-- A magnitude with 53 digits is worth the first of them or more. -/
theorem le_worth (hfull : 2 ^ 52 ≤ x.m) : 2 ^ (52 + x.q) ≤ x.worth := by
  have hfull : (2 ^ 52 : ℚ) ≤ x.m := by exact_mod_cast hfull
  calc (2 : ℚ) ^ (52 + x.q) = 2 ^ 52 * 2 ^ x.q := two_zpow 52 x.q
    _ ≤ x.worth := mul_le_mul_of_nonneg_right hfull (by positivity)

theorem worth_of_least (hm : x.m = 2 ^ 52) : x.worth = 2 ^ (52 + x.q) := by
  rw [Magnitude.worth, hm]
  push_cast
  exact (two_zpow 52 x.q).symm

/-- No magnitude is worth more than 53 digits one under the greatest exponent. -/
theorem worth_le_greatest (canonical : Canonical x) : x.worth ≤ (2 ^ 53 - 1) * 2 ^ (971 : Int) := by
  have hm : (x.m : ℚ) ≤ 2 ^ 53 - 1 := by
    have hlt : (x.m + 1 : ℚ) ≤ 2 ^ 53 := by exact_mod_cast canonical.lt
    linarith
  exact mul_le_mul hm (zpow_le_zpow_right₀ one_le_two canonical.greatest) (by positivity)
    (by norm_num)

/-- The leading digit bounds a number from both sides. -/
theorem dyadic_bounds (hk : 0 < k) (s : Int) :
    (2 : ℚ) ^ (k.log2 + s) ≤ k * 2 ^ s ∧ (k * 2 ^ s : ℚ) < 2 ^ (k.log2 + 1 + s) := by
  have hexact : (k * 2 ^ s : ℚ) / 2 ^ s = k := mul_div_cancel_right₀ _ (by positivity)
  have hbounds := Represents.bounds (hexact ▸ represents_exact k)
  exact ⟨hbounds.2 hk.ne', hbounds.1⟩

/-- The leading digit of a number is none behind those of a magnitude that is not less. -/
theorem log2_lt_of_le_worth (hk : 0 < k) (canonical : Canonical y) (hle : k * 2 ^ s ≤ y.worth) :
    k.log2 + s < 53 + y.q :=
  (zpow_lt_zpow_iff_right₀ one_lt_two).1
    (((dyadic_bounds hk s).1.trans hle).trans_lt (worth_lt canonical))

theorem log2_shiftLeft (hk : 0 < k) (n : Nat) : (k <<< n).log2 = k.log2 + n := by
  have hpos : 0 < k <<< n := by
    rw [Nat.shiftLeft_eq]
    positivity
  rw [Nat.log2_eq_iff hpos.ne', Nat.shiftLeft_eq, pow_add, Nat.add_right_comm, pow_add]
  exact ⟨Nat.mul_le_mul_right _ (Nat.log2_self_le hk.ne'),
    Nat.mul_lt_mul_of_pos_right Nat.lt_log2_self (by positivity)⟩

/-- A number whose digits all fit is a magnitude. -/
theorem exists_holds_of_short (hk : 0 < k) (hshort : targetOf k s ≤ s)
    (hgreatest : targetOf k s ≤ 971) : ∃ x, Canonical x ∧ x.Holds (k * 2 ^ s) := by
  generalize htarget : targetOf k s = t at *
  rw [targetOf] at htarget
  have hlog := log2_shiftLeft hk (s - t).toNat
  have hpos : 0 < k <<< (s - t).toNat := by
    rw [Nat.shiftLeft_eq]
    positivity
  have hlt : k <<< (s - t).toNat < 2 ^ 53 := (Nat.log2_lt hpos.ne').1 (by omega)
  have hfull : 2 ^ 52 ≤ k <<< (s - t).toNat ∨ t = -1074 := by
    by_cases hleast : t = -1074
    · exact Or.inr hleast
    · exact Or.inl ((Nat.le_log2 hpos.ne').1 (by omega))
  refine ⟨_, canonical_of_full hpos hlt (by omega) hgreatest hfull, ?_⟩
  have hworth : Magnitude.worth ⟨k <<< (s - t).toNat, t,
      k <<< (s - t).toNat = 2 ^ 52 && t ≠ -1074⟩ = k * 2 ^ s := by
    rw [Magnitude.worth, Nat.shiftLeft_eq]
    push_cast
    rw [mul_assoc, ← two_zpow]
    congr 2
    omega
  rw [← hworth]
  exact Magnitude.holds_worth hpos

/-- A number is rounded to the nearest significand of 53 digits. -/
theorem exists_holds_of_nearest {m : Nat} {t : Int} (hlt : m < 2 ^ 53) (hleast : -1074 ≤ t)
    (hgreatest : t ≤ 971) (hfull : 2 ^ 52 ≤ w / 2 ^ t) (hle : (m : ℚ) - 1 / 2 ≤ w / 2 ^ t)
    (hge : w / 2 ^ t ≤ m + 1 / 2)
    (hodd : m % 2 = 1 → (m : ℚ) - 1 / 2 < w / 2 ^ t ∧ w / 2 ^ t < m + 1 / 2) :
    ∃ x, Canonical x ∧ x.Holds w := by
  have hdigits : 2 ^ 52 ≤ m := le_of_near (by exact_mod_cast hfull) hge
  refine ⟨_, canonical_of_full (by omega) hlt hleast hgreatest (Or.inl hdigits), ?_⟩
  refine holds_of_near (by show 0 < m; omega) hle hge hodd fun hnarrow => ?_
  simp only [Bool.and_eq_true, decide_eq_true_eq] at hnarrow
  obtain ⟨rfl, -⟩ := hnarrow
  refine ⟨?_, ?_⟩
  · show 2 ^ 52 % 2 = 0
    decide
  · show ((2 ^ 52 : Nat) : ℚ) - 1 / 4 ≤ w / 2 ^ t
    push_cast
    linarith

/-- A number that is nearest to the least significand of 54 digits is rounded to one digit less. -/
theorem exists_holds_of_carry {t : Int} (hleast : -1074 ≤ t) (hgreatest : t < 971)
    (hge : 2 ^ 53 - 1 / 2 ≤ w / 2 ^ t) (hlt : w / 2 ^ t < 2 ^ 53) :
    ∃ x, Canonical x ∧ x.Holds w := by
  have hhalf : w / 2 ^ (t + 1) = w / 2 ^ t / 2 := by
    rw [zpow_add_one₀ two_ne_zero, div_div]
  have canonical := canonical_of_full (Nat.pow_pos (by decide)) (by decide) (by omega)
    (by omega : t + 1 ≤ 971) (Or.inl (Nat.le_refl (2 ^ 52)))
  have hodd : ¬ 2 ^ 52 % 2 = 1 := by decide
  refine ⟨_, canonical, holds_of_near canonical.pos ?_ ?_ (fun h => absurd h hodd)
    fun _ => ⟨by show 2 ^ 52 % 2 = 0; decide, ?_⟩⟩
  · show ((2 ^ 52 : Nat) : ℚ) - 1 / 2 ≤ w / 2 ^ (t + 1)
    rw [hhalf]
    push_cast
    linarith
  · show w / 2 ^ (t + 1) ≤ ((2 ^ 52 : Nat) : ℚ) + 1 / 2
    rw [hhalf]
    push_cast
    linarith
  · show ((2 ^ 52 : Nat) : ℚ) - 1 / 4 ≤ w / 2 ^ (t + 1)
    rw [hhalf]
    push_cast
    linarith

/-- A number with more digits is rounded to 53 of them. -/
theorem exists_holds_of_long (hk : 0 < k) (hleast : -1074 ≤ s) (hlong : s < targetOf k s)
    (canonical : Canonical y) (hle : k * 2 ^ s ≤ y.worth) :
    ∃ x, Canonical x ∧ x.Holds (k * 2 ^ s) := by
  have htarget : targetOf k s = k.log2 + s - 52 := by
    rw [targetOf] at hlong ⊢
    omega
  have htop := log2_lt_of_le_worth hk canonical hle
  have htopmost := canonical.greatest
  generalize targetOf k s = t at *
  obtain ⟨hlow, hhigh⟩ := dyadic_bounds hk s
  generalize (k * 2 ^ s : ℚ) = w at *
  have hunit : (0 : ℚ) < 2 ^ t := by positivity
  have hlow : (2 ^ 52 : ℚ) ≤ w / 2 ^ t := by
    rw [le_div_iff₀ hunit, ← two_zpow]
    refine le_trans (le_of_eq ?_) hlow
    congr 1
    omega
  have hhigh : w / 2 ^ t < 2 ^ 53 := by
    rw [div_lt_iff₀ hunit, ← two_zpow]
    refine lt_of_lt_of_eq hhigh ?_
    congr 1
    omega
  obtain ⟨m, hge, hle', hodd⟩ := exists_nearest (le_trans (by positivity) hlow)
  have hmlow : 2 ^ 52 ≤ m := by
    have hlt : (2 ^ 52 : ℚ) < m + 1 := by linarith
    have hlt : 2 ^ 52 < m + 1 := by exact_mod_cast hlt
    omega
  have hmhigh : m ≤ 2 ^ 53 := by
    have hlt : (m : ℚ) < 2 ^ 53 + 1 := by linarith
    have hlt : m < 2 ^ 53 + 1 := by exact_mod_cast hlt
    omega
  rcases Nat.lt_or_eq_of_le hmhigh with hlt | rfl
  · exact exists_holds_of_nearest hlt (by omega) (by omega) hlow hge hle' hodd
  · push_cast at hge
    refine exists_holds_of_carry (by omega) ?_ hge hhigh
    by_contra hgreat
    obtain rfl : t = 971 := by omega
    rw [le_div_iff₀ hunit] at hge
    have hless : ((2 : ℚ) ^ 53 - 1) * 2 ^ (971 : Int) < (2 ^ 53 - 1 / 2) * 2 ^ (971 : Int) :=
      mul_lt_mul_of_pos_right (by norm_num) hunit
    exact absurd (hge.trans (hle.trans (worth_le_greatest canonical))) hless.not_ge

/-- A number that is not greater than all magnitudes lies in the rounding interval of one. -/
theorem exists_holds (hk : 0 < k) (hleast : -1074 ≤ s) (canonical : Canonical y)
    (hle : k * 2 ^ s ≤ y.worth) : ∃ x, Canonical x ∧ x.Holds (k * 2 ^ s) := by
  rcases Int.lt_or_le s (targetOf k s) with hlong | hshort
  · exact exists_holds_of_long hk hleast hlong canonical hle
  · refine exists_holds_of_short hk hshort ?_
    have := log2_lt_of_le_worth hk canonical hle
    have := canonical.greatest
    rw [targetOf]
    omega

/-! ## Rounding -/

/-- A number is rounded to the magnitude in whose rounding interval it lies. -/
theorem round_eq (canonical : Canonical x) (hk : 0 < k) (hw : x.Holds (k * 2 ^ s)) (sign : Sign) :
    UnpackedFloat.round .binary64 sign k s = .finite sign x.m x.q canonical.pos := by
  have hround : UnpackedFloat.round .binary64 sign k s =
      roundWithAccuracy .binary64 sign (k <<< (s - targetOf k s).toNat)
        (s - (s - targetOf k s).toNat) .exact := rfl
  rw [hround]
  refine roundWithAccuracy_eq canonical (w := k * 2 ^ s) ?_ ?_ hw sign
  · have hexact : (k * 2 ^ s : ℚ) / 2 ^ (s - (s - targetOf k s).toNat) =
        (k <<< (s - targetOf k s).toNat : Nat) := by
      rw [div_eq_iff (by positivity), Nat.shiftLeft_eq]
      push_cast
      rw [mul_assoc, ← two_zpow]
      congr 2
      omega
    rw [hexact]
    exact represents_exact _
  · have htarget : targetOf (k <<< (s - targetOf k s).toNat) (s - (s - targetOf k s).toNat) =
        targetOf k s := by
      rw [targetOf, log2_shiftLeft hk]
      generalize hn : (s - targetOf k s).toNat = n
      rw [targetOf]
      push_cast
      congr 1
      omega
    rw [htarget]
    omega

/-- A number lies in the rounding interval of one canonical magnitude only. -/
theorem eq_of_holds (hx : Canonical x) (hy : Canonical y) (hwx : x.Holds w) (hwy : y.Holds w) :
    x = y := by
  have hnonneg : 0 ≤ w / 2 ^ (-1074 : Int) :=
    div_nonneg (le_trans (by positivity) hwx.lower) (by positivity)
  obtain ⟨num, den, hden, hfraction⟩ : ∃ num den : Nat, 0 < den ∧
      w / 2 ^ (-1074 : Int) = num / den := by
    generalize w / 2 ^ (-1074 : Int) = part at hnonneg
    refine ⟨part.num.toNat, part.den, part.den_pos, ?_⟩
    rw [← Int.cast_natCast, Int.toNat_of_nonneg (Rat.num_nonneg.2 hnonneg), Rat.num_div_den]
  -- the number is rounded by way of its fraction, and its interval says to which magnitude
  have hrepresents := represents_fraction num hden
  rw [← hfraction] at hrepresents
  have hroundx := roundWithAccuracy_eq hx hrepresents (le_max_right _ _) hwx .positive
  have hroundy := roundWithAccuracy_eq hy hrepresents (le_max_right _ _) hwy .positive
  injection hroundx.symm.trans hroundy with _ hm hq
  have hnarrow : x.narrowBelow = y.narrowBelow := by
    rw [Bool.eq_iff_iff, hx.narrow, hy.narrow, hm, hq]
  exact Magnitude.mk.injEq .. ▸ ⟨hm, hq, hnarrow⟩

/-- Rounding keeps the order: a number less than a magnitude is rounded to that magnitude or to a
lesser one. -/
theorem worth_le_of_holds (hx : Canonical x) (hy : Canonical y) (hw : x.Holds w)
    (hle : w ≤ y.worth) : x.worth ≤ y.worth := by
  by_contra hlt
  -- otherwise the interval of the greater magnitude has both of them in it
  have hholds := holds_of_between hw (Magnitude.holds_worth hx.pos) hle (not_le.1 hlt).le
  rw [eq_of_holds hx hy hholds (Magnitude.holds_worth hy.pos)] at hlt
  exact hlt le_rfl

/-! ## Subtraction -/

/-- The digits of a magnitude moved up to a lesser exponent. -/
theorem worth_eq_shifted (x : Magnitude) (hs : s ≤ x.q) :
    x.worth = (x.m <<< (x.q - s).toNat : Nat) * 2 ^ s := by
  rw [Magnitude.worth, Nat.shiftLeft_eq]
  push_cast
  rw [mul_assoc, ← two_zpow]
  congr 2
  omega

theorem normalize_of_lt {a b : Nat} (h : a < b) :
    UnpackedFloat.normalize .binary64 ((a : Int) - b) s .positive =
      UnpackedFloat.round .binary64 .negative (b - a) s := by
  rw [UnpackedFloat.normalize, Int.compare_eq_lt.2 (by omega)]
  show UnpackedFloat.round .binary64 .negative _ s = _
  congr 1
  omega

theorem normalize_of_gt {a b : Nat} (h : b < a) :
    UnpackedFloat.normalize .binary64 ((a : Int) - b) s .positive =
      UnpackedFloat.round .binary64 .positive (a - b) s := by
  rw [UnpackedFloat.normalize, Int.compare_eq_gt.2 (by omega)]
  show UnpackedFloat.round .binary64 .positive _ s = _
  congr 1
  omega

/-- The difference of two multiples of a power, the greater one of which is a magnitude, is
rounded. -/
theorem exists_round_sub {a b : Nat} (h : b < a) (hleast : -1074 ≤ s) (canonical : Canonical x)
    (hworth : x.worth = a * 2 ^ s) (sign : Sign) :
    ∃ z, ∃ rounded : Canonical z, z.Holds (a * 2 ^ s - b * 2 ^ s) ∧
      UnpackedFloat.round .binary64 sign (a - b) s = .finite sign z.m z.q rounded.pos := by
  have hdifference : (a * 2 ^ s - b * 2 ^ s : ℚ) = (a - b : Nat) * 2 ^ s := by
    rw [Nat.cast_sub h.le, sub_mul]
  have hle : ((a - b : Nat) * 2 ^ s : ℚ) ≤ x.worth := by
    rw [← hdifference, hworth]
    exact sub_le_self _ (by positivity)
  obtain ⟨z, rounded, hz⟩ := exists_holds (by omega) hleast canonical hle
  rw [hdifference]
  exact ⟨z, rounded, hz, round_eq rounded (by omega) hz sign⟩

/-- The difference of two magnitudes is rounded to the magnitude in whose interval it lies, and has
the sign of the exact difference. -/
theorem sub_cases (hx : Canonical x) (hy : Canonical y) :
    let difference := UnpackedFloat.sub .binary64 (.finite .positive x.m x.q hx.pos)
      (.finite .positive y.m y.q hy.pos)
    (y.worth < x.worth ∧ ∃ z, ∃ rounded : Canonical z, z.Holds (x.worth - y.worth) ∧
      difference = .finite .positive z.m z.q rounded.pos) ∨
    (x.worth = y.worth ∧ difference = .zero .positive) ∨
    (x.worth < y.worth ∧ ∃ z, ∃ rounded : Canonical z, z.Holds (y.worth - x.worth) ∧
      difference = .finite .negative z.m z.q rounded.pos) := by
  intro difference
  have hxs := worth_eq_shifted x (Int.min_le_left x.q y.q)
  have hys := worth_eq_shifted y (Int.min_le_right x.q y.q)
  have hdifference : difference = UnpackedFloat.normalize .binary64
      ((x.m <<< (x.q - min x.q y.q).toNat : Nat) - (y.m <<< (y.q - min x.q y.q).toNat : Nat))
      (min x.q y.q) .positive := rfl
  have hleast : -1074 ≤ min x.q y.q := le_min hx.least hy.least
  generalize min x.q y.q = s at *
  generalize x.m <<< (x.q - s).toNat = a at *
  generalize y.m <<< (y.q - s).toNat = b at *
  have hunit : (0 : ℚ) < 2 ^ s := by positivity
  rw [hdifference]
  rcases Nat.lt_trichotomy a b with hlt | rfl | hgt
  · refine Or.inr (Or.inr ⟨?_, ?_⟩)
    · rw [hxs, hys]
      exact mul_lt_mul_of_pos_right (by exact_mod_cast hlt) hunit
    · rw [hxs, hys, normalize_of_lt hlt]
      exact exists_round_sub hlt hleast hy hys .negative
  · refine Or.inr (Or.inl ⟨hxs.trans hys.symm, ?_⟩)
    rw [sub_self]
    rfl
  · refine Or.inl ⟨?_, ?_⟩
    · rw [hxs, hys]
      exact mul_lt_mul_of_pos_right (by exact_mod_cast hgt) hunit
    · rw [hxs, hys, normalize_of_gt hgt]
      exact exists_round_sub hgt hleast hx hxs .positive

end EventChains.Binary64
