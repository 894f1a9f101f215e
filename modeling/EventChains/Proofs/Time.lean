import EventChains.Timestamp

/-!
# The order of timestamps

Timestamps are compared as binary64 numbers, so the two zeros are at the same time. `le_iff_rank_le`
places each timestamp in a linear order: the zeros at the bottom, and the positive numbers by
exponent and then by mantissa. The order of time is therefore transitive and total, and its strict
part is what is left of the reverse order (`lt_iff_not_le`).
-/

namespace EventChains.Timestamp

open Float.Model

/-- Where a timestamp stands in time: exponent and mantissa of a positive number, or nothing for a
zero. -/
def rank (t : Timestamp) : Option (Int × Nat) :=
  match t.val.toModel.unpack with
  | .finite _ mantissa exponent _ => some (exponent, mantissa)
  | _ => none

/-- The linear order of ranks. -/
def RankLE : Option (Int × Nat) → Option (Int × Nat) → Prop
  | none, _ => True
  | some _, none => False
  | some (e, m), some (f, n) => e < f ∨ (e = f ∧ m ≤ n)

/-- Two numbers are in order when their comparison says less or equal. -/
theorem le_iff_compare {x y : Float} :
    x ≤ y ↔ (x.toModel.unpack.compare y.toModel.unpack).any (·.isLE) = true := by
  show decide (x.toModel ≤ y.toModel) = true ↔ _
  rw [decide_eq_true_eq]
  rfl

/-- A timestamp is a zero or a positive finite number. -/
theorem unpack_cases (t : Timestamp) :
    (∃ sign, t.val.toModel.unpack = .zero sign) ∨
    ∃ mantissa exponent h, t.val.toModel.unpack = .finite .positive mantissa exponent h := by
  have hfinite : t.val.toModel.unpack.isFinite = true := t.isFinite
  have hnonneg := le_iff_compare.1 t.nonneg
  rw [show (Float.toModel 0).unpack = .zero .positive from rfl] at hnonneg
  cases hunpack : t.val.toModel.unpack with
  | infinity =>
      rw [hunpack] at hfinite
      contradiction
  | notANumber =>
      rw [hunpack] at hfinite
      contradiction
  | zero sign => exact Or.inl ⟨sign, rfl⟩
  | finite sign mantissa exponent h =>
      cases sign with
      | positive => exact Or.inr ⟨mantissa, exponent, h, rfl⟩
      | negative =>
          rw [hunpack] at hnonneg
          contradiction

/-- The order of time is the order of ranks. -/
theorem le_iff_rank_le {a b : Timestamp} : a ≤ b ↔ RankLE a.rank b.rank := by
  refine le_iff_compare.trans ?_
  unfold rank
  obtain ⟨_, ha⟩ | ⟨m, e, _, ha⟩ := a.unpack_cases
  · obtain ⟨_, hb⟩ | ⟨n, f, _, hb⟩ := b.unpack_cases
    · rw [ha, hb]
      exact ⟨fun _ => trivial, fun _ => rfl⟩
    · rw [ha, hb]
      exact ⟨fun _ => trivial, fun _ => rfl⟩
  · obtain ⟨_, hb⟩ | ⟨n, f, _, hb⟩ := b.unpack_cases
    · rw [ha, hb]
      exact ⟨fun h => by contradiction, fun h => h.elim⟩
    · rw [ha, hb]
      -- two positive numbers: the exponents decide first
      show ((compare e f).then (compare m n)).isLE = true ↔ e < f ∨ (e = f ∧ m ≤ n)
      rw [Ordering.isLE_then_iff_or, Int.compare_eq_lt, Int.compare_eq_eq, Nat.isLE_compare]

theorem RankLE.total (a b : Option (Int × Nat)) : RankLE a b ∨ RankLE b a := by
  cases a with
  | none => exact Or.inl trivial
  | some first =>
      cases b with
      | none => exact Or.inr trivial
      | some second =>
          show (first.1 < second.1 ∨ (first.1 = second.1 ∧ first.2 ≤ second.2)) ∨
            (second.1 < first.1 ∨ (second.1 = first.1 ∧ second.2 ≤ first.2))
          omega

theorem RankLE.trans {a b c : Option (Int × Nat)} (hab : RankLE a b) (hbc : RankLE b c) :
    RankLE a c := by
  cases a with
  | none => exact trivial
  | some first =>
      cases b with
      | none => exact hab.elim
      | some second =>
          cases c with
          | none => exact hbc.elim
          | some third =>
              have hab : first.1 < second.1 ∨ (first.1 = second.1 ∧ first.2 ≤ second.2) := hab
              have hbc : second.1 < third.1 ∨ (second.1 = third.1 ∧ second.2 ≤ third.2) := hbc
              show first.1 < third.1 ∨ (first.1 = third.1 ∧ first.2 ≤ third.2)
              omega

protected theorem le_trans {a b c : Timestamp} (hab : a ≤ b) (hbc : b ≤ c) : a ≤ c :=
  le_iff_rank_le.2 ((le_iff_rank_le.1 hab).trans (le_iff_rank_le.1 hbc))

protected theorem le_total (a b : Timestamp) : a ≤ b ∨ b ≤ a :=
  (RankLE.total a.rank b.rank).imp le_iff_rank_le.2 le_iff_rank_le.2

protected theorem le_refl (a : Timestamp) : a ≤ a :=
  (a.le_total a).elim id id

/-- A number is less than another one when their comparison says so. -/
theorem lt_iff_compare {x y : Float} :
    x < y ↔ x.toModel.unpack.compare y.toModel.unpack = some .lt := by
  show decide (x.toModel < y.toModel) = true ↔ _
  rw [decide_eq_true_eq]
  exact beq_iff_eq

/-- A timestamp is earlier than another one exactly if the other one is not at the same time or
earlier. -/
protected theorem lt_iff_not_le {a b : Timestamp} : a < b ↔ ¬ b ≤ a := by
  rw [le_iff_rank_le]
  refine lt_iff_compare.trans ?_
  unfold rank
  obtain ⟨_, ha⟩ | ⟨m, e, _, ha⟩ := a.unpack_cases
  · obtain ⟨_, hb⟩ | ⟨n, f, _, hb⟩ := b.unpack_cases
    · rw [ha, hb]
      show some Ordering.eq = some .lt ↔ ¬ True
      simp
    · rw [ha, hb]
      show some Ordering.lt = some .lt ↔ ¬ False
      simp
  · obtain ⟨_, hb⟩ | ⟨n, f, _, hb⟩ := b.unpack_cases
    · rw [ha, hb]
      show some Ordering.gt = some .lt ↔ ¬ True
      simp
    · rw [ha, hb]
      show some ((compare e f).then (compare m n)) = some .lt ↔ ¬ (f < e ∨ (f = e ∧ n ≤ m))
      rw [Option.some.injEq, Ordering.then_eq_lt, Int.compare_eq_lt, Int.compare_eq_eq,
        Nat.compare_eq_lt]
      omega

end EventChains.Timestamp
