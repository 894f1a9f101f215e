import EventChains.Decimal.Layout

/-!
# Timestamps

A timestamp is a finite binary64 number of milliseconds that is not below zero. Both zeros are
timestamps; they are equal in time, and `Timestamp.before` puts the negative zero first where a
total order is needed. The main statement is `ofFloat?_eq_some_iff`: exactly the finite numbers from
zero on are timestamps.
-/

namespace EventChains

/-- A point in time, in milliseconds. -/
structure Timestamp where
  val : Float
  isFinite : val.isFinite = true
  nonneg : (0 : Float) ≤ val
  deriving DecidableEq

namespace Timestamp

/-- Time zero. -/
def zero : Timestamp := ⟨0, by decide, by decide⟩

instance : Inhabited Timestamp := ⟨zero⟩

instance : LE Timestamp := ⟨fun a b => a.val ≤ b.val⟩
instance : LT Timestamp := ⟨fun a b => a.val < b.val⟩

instance (a b : Timestamp) : Decidable (a ≤ b) := inferInstanceAs (Decidable (a.val ≤ b.val))
instance (a b : Timestamp) : Decidable (a < b) := inferInstanceAs (Decidable (a.val < b.val))

/-- The number as a timestamp, if it is one. -/
def ofFloat? (x : Float) : Option Timestamp :=
  if h : x.isFinite = true ∧ (0 : Float) ≤ x then some ⟨x, h.1, h.2⟩ else none

/-- Exactly the finite numbers from zero on are timestamps. -/
theorem ofFloat?_eq_some_iff {x : Float} {t : Timestamp} : ofFloat? x = some t ↔ x = t.val := by
  unfold ofFloat?
  split
  · simp only [Option.some.injEq]
    exact ⟨fun h => by rw [← h], fun h => by subst h; rfl⟩
  · rename_i h
    simp only [reduceCtorEq, false_iff]
    intro hx
    subst hx
    exact h ⟨t.isFinite, t.nonneg⟩

/-- The negative zero. -/
def isNegativeZero (t : Timestamp) : Bool :=
  t.val.toBits == 0x8000000000000000

/-- Earlier in the total order of timestamps: earlier in time, or the negative zero before the
other one. -/
def before (a b : Timestamp) : Bool :=
  a < b || (!decide (b < a) && a.isNegativeZero && !b.isNegativeZero)

/-- The time from one point to another. -/
def span (start finish : Timestamp) : Float :=
  finish.val - start.val

/-- A timestamp as listings show it. -/
def listed (t : Timestamp) : String :=
  Decimal.listed t.val

end Timestamp

end EventChains
