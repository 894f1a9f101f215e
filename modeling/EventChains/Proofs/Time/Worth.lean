import EventChains.Proofs.Binary64.Difference
import EventChains.Proofs.Time
import Mathlib

/-!
# Timestamps as rational numbers

A timestamp is worth a rational number, which is zero for both zeros. Timestamps are in order
exactly if what they are worth is (`le_iff_worth_le`, `lt_iff_worth_lt`), and the difference of two
is the exact one, rounded (`sub_cases`).
-/

namespace EventChains

open Decimal Float.Model

namespace Binary64

variable {x y : Magnitude}

/-- Canonical magnitudes are in order by exponent and then by significand. -/
theorem worth_lt_of_lex (hx : Canonical x) (hy : Canonical y)
    (h : x.q < y.q ∨ x.q = y.q ∧ x.m < y.m) : x.worth < y.worth := by
  rcases h with hq | ⟨hq, hm⟩
  · have hleast := hx.least
    calc x.worth < 2 ^ (53 + x.q) := worth_lt hx
      _ ≤ 2 ^ (52 + y.q) := zpow_le_zpow_right₀ one_le_two (by omega)
      _ ≤ y.worth := le_worth (hy.full.resolve_right (by omega))
  · rw [Magnitude.worth, Magnitude.worth, hq]
    exact mul_lt_mul_of_pos_right (by exact_mod_cast hm) (by positivity)

theorem worth_le_iff (hx : Canonical x) (hy : Canonical y) :
    x.worth ≤ y.worth ↔ x.q < y.q ∨ x.q = y.q ∧ x.m ≤ y.m := by
  constructor
  · intro hle
    by_contra hlex
    exact (worth_lt_of_lex hy hx (by omega)).not_ge hle
  · rintro (hq | ⟨hq, hm⟩)
    · exact (worth_lt_of_lex hx hy (Or.inl hq)).le
    · rw [Magnitude.worth, Magnitude.worth, hq]
      exact mul_le_mul_of_nonneg_right (by exact_mod_cast hm) (by positivity)

end Binary64

namespace Timestamp

open Binary64

variable {a b t : Timestamp}

/-- The magnitude in the bits of a timestamp. -/
def magnitude (t : Timestamp) : Magnitude :=
  .ofBits t.val.toBits

/-- What a timestamp is worth. -/
def worth (t : Timestamp) : ℚ :=
  t.magnitude.worth

/-- A timestamp is worth nothing, or it is a positive number with a canonical magnitude. -/
theorem magnitude_cases (t : Timestamp) :
    (t.worth = 0 ∧ ∃ sign, t.val.toModel.unpack = .zero sign) ∨
    ∃ canonical : Canonical t.magnitude,
      t.val.toModel.unpack = .finite .positive t.magnitude.m t.magnitude.q canonical.pos := by
  obtain ⟨hzero, hunpack⟩ | ⟨canonical, hpos, hunpack⟩ :=
    Binary64.unpack_cases t.val.toBits t.isFinite
  · refine Or.inl ⟨?_, _, hunpack⟩
    rw [worth, Magnitude.worth, magnitude, hzero, Nat.cast_zero, zero_mul]
  · refine Or.inr ⟨canonical, hunpack.trans (finite_congr ?_ rfl rfl)⟩
    obtain ⟨sign, hzero⟩ | ⟨_, _, _, hpositive⟩ := t.unpack_cases
    · exact UnpackedFloat.noConfusion (hunpack.symm.trans hzero)
    · injection hunpack.symm.trans hpositive

theorem worth_nonneg (t : Timestamp) : 0 ≤ t.worth := by
  rw [worth, Magnitude.worth]
  positivity

theorem worth_zero : zero.worth = 0 := by
  have hmagnitude : zero.magnitude = ⟨0, -1074, false⟩ := by decide +kernel
  rw [worth, hmagnitude, Magnitude.worth, Nat.cast_zero, zero_mul]

/-- Timestamps are in order exactly if what they are worth is. -/
theorem le_iff_worth_le : a ≤ b ↔ a.worth ≤ b.worth := by
  rw [le_iff_rank_le]
  unfold rank
  obtain ⟨hza, _, ha⟩ | ⟨hca, ha⟩ := a.magnitude_cases
  · rw [ha, hza]
    exact ⟨fun _ => b.worth_nonneg, fun _ => trivial⟩
  · obtain ⟨hzb, _, hb⟩ | ⟨hcb, hb⟩ := b.magnitude_cases
    · rw [ha, hb, hzb]
      exact ⟨False.elim, (worth_pos hca).not_ge⟩
    · rw [ha, hb]
      exact (worth_le_iff hca hcb).symm

theorem lt_iff_worth_lt : a < b ↔ a.worth < b.worth := by
  rw [Timestamp.lt_iff_not_le, le_iff_worth_le, not_le]

/-- A zero or a positive finite number is a timestamp. -/
theorem exists_val_eq {time : Float} (h : (∃ sign, time.toModel.unpack = .zero sign) ∨
    ∃ m q hpos, time.toModel.unpack = .finite .positive m q hpos) :
    ∃ t : Timestamp, t.val = time := by
  have hfinite : time.isFinite = true := by
    obtain ⟨_, h⟩ | ⟨_, _, _, h⟩ := h
    · exact isFinite_of_zero h
    · exact isFinite_of_finite h
  have hnonneg : (0 : Float) ≤ time := by
    rw [le_iff_compare]
    obtain ⟨_, h⟩ | ⟨_, _, _, h⟩ := h <;> rw [h] <;> rfl
  exact ⟨⟨time, hfinite, hnonneg⟩, rfl⟩

/-- A number that is unpacked as a zero is a timestamp that is worth nothing. -/
theorem exists_of_unpack_zero {time : Float} {sign : UnpackedFloat.Sign}
    (h : time.toModel.unpack = .zero sign) : ∃ t : Timestamp, t.val = time ∧ t.worth = 0 := by
  obtain ⟨t, rfl⟩ := exists_val_eq (Or.inl ⟨sign, h⟩)
  refine ⟨t, rfl, ?_⟩
  obtain ⟨hzero, -⟩ | ⟨_, hunpack⟩ := t.magnitude_cases
  · exact hzero
  · exact UnpackedFloat.noConfusion (h.symm.trans hunpack)

/-- A number that is unpacked as a canonical magnitude is a timestamp of that worth. -/
theorem exists_of_unpack_finite {time : Float} {x : Magnitude} (canonical : Canonical x)
    (h : time.toModel.unpack = .finite .positive x.m x.q canonical.pos) :
    ∃ t : Timestamp, t.val = time ∧ t.worth = x.worth := by
  obtain ⟨t, rfl⟩ := exists_val_eq (Or.inr ⟨_, _, _, h⟩)
  refine ⟨t, rfl, ?_⟩
  obtain ⟨-, _, hzero⟩ | ⟨_, hunpack⟩ := t.magnitude_cases
  · exact UnpackedFloat.noConfusion (h.symm.trans hzero)
  · injection h.symm.trans hunpack with _ hm hq
    rw [worth, Magnitude.worth, Magnitude.worth, ← hm, ← hq]

/-! ## Differences -/

/-- A number is unpacked as the result of a subtraction if that is a zero. -/
theorem unpack_sub_zero {x y : Float} {sign : UnpackedFloat.Sign}
    (h : UnpackedFloat.sub .binary64 x.toModel.unpack y.toModel.unpack = .zero sign) :
    (x - y).toModel.unpack = .zero sign := by
  show (Float.Model.pack (UnpackedFloat.sub .binary64 x.toModel.unpack y.toModel.unpack)).unpack = _
  rw [h]
  cases sign <;> rfl

theorem unpack_sub_finite {x y : Float} {z : Magnitude} (canonical : Canonical z)
    {sign : UnpackedFloat.Sign}
    (h : UnpackedFloat.sub .binary64 x.toModel.unpack y.toModel.unpack =
      .finite sign z.m z.q canonical.pos) :
    (x - y).toModel.unpack = .finite sign z.m z.q canonical.pos := by
  show (Float.Model.pack (UnpackedFloat.sub .binary64 x.toModel.unpack y.toModel.unpack)).unpack = _
  rw [h]
  exact unpack_pack canonical sign

/-- The difference of two timestamps is rounded to the magnitude in whose interval the exact
difference lies, and has its sign. -/
theorem sub_cases (a b : Timestamp) :
    (b.worth < a.worth ∧ ∃ z, ∃ canonical : Canonical z, z.Holds (a.worth - b.worth) ∧
      (a.val - b.val).toModel.unpack = .finite .positive z.m z.q canonical.pos) ∨
    (a.worth = b.worth ∧ ∃ sign, (a.val - b.val).toModel.unpack = .zero sign) ∨
    (a.worth < b.worth ∧ ∃ z, ∃ canonical : Canonical z, z.Holds (b.worth - a.worth) ∧
      (a.val - b.val).toModel.unpack = .finite .negative z.m z.q canonical.pos) := by
  obtain ⟨hza, _, ha⟩ | ⟨hca, ha⟩ := a.magnitude_cases
  · obtain ⟨hzb, _, hb⟩ | ⟨hcb, hb⟩ := b.magnitude_cases
    · refine Or.inr (Or.inl ⟨hza.trans hzb.symm, ?_⟩)
      have hsub : ∃ sign, UnpackedFloat.sub .binary64 a.val.toModel.unpack b.val.toModel.unpack =
          .zero sign := by
        rw [ha, hb, UnpackedFloat.sub]
        split
        · exact ⟨_, rfl⟩
        · exact ⟨_, rfl⟩
      exact hsub.imp fun _ => unpack_sub_zero
    · refine Or.inr (Or.inr ⟨?_, b.magnitude, hcb, ?_, unpack_sub_finite hcb ?_⟩)
      · rw [hza]
        exact worth_pos hcb
      · rw [hza, sub_zero]
        exact Magnitude.holds_worth hcb.pos
      · rw [ha, hb]
        rfl
  · obtain ⟨hzb, _, hb⟩ | ⟨hcb, hb⟩ := b.magnitude_cases
    · refine Or.inl ⟨?_, a.magnitude, hca, ?_, unpack_sub_finite hca ?_⟩
      · rw [hzb]
        exact worth_pos hca
      · rw [hzb, sub_zero]
        exact Magnitude.holds_worth hca.pos
      · rw [ha, hb]
        rfl
    · have hsub : UnpackedFloat.sub .binary64 a.val.toModel.unpack b.val.toModel.unpack = _ :=
        congrArg₂ _ ha hb
      obtain ⟨hlt, z, canonical, hz, h⟩ | ⟨heq, h⟩ | ⟨hlt, z, canonical, hz, h⟩ :=
        Binary64.sub_cases hca hcb
      · exact Or.inl ⟨hlt, z, canonical, hz, unpack_sub_finite canonical (hsub.trans h)⟩
      · exact Or.inr (Or.inl ⟨heq, _, unpack_sub_zero (hsub.trans h)⟩)
      · exact Or.inr (Or.inr ⟨hlt, z, canonical, hz, unpack_sub_finite canonical (hsub.trans h)⟩)

end Timestamp

end EventChains
