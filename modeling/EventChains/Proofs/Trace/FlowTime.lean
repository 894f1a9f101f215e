import EventChains.Proofs.Time.Worth
import EventChains.Trace.Basic
import Mathlib

/-!
# The time at which a flow ends

A flow ends a nanosecond before its target, as far as binary64 numbers allow. That time is a
timestamp (`flowEnd`), and it is before the target exactly if the target is later than zero and not
later than `2 ^ 34` milliseconds (`flowEnd_lt_iff`): from there on the numbers are too far apart for
a nanosecond.
-/

namespace EventChains.Trace

open Decimal Binary64 Float.Model

/-- The lead of the end of a flow, as a timestamp. -/
def lead : Timestamp :=
  ⟨flowLead, by decide, by decide⟩

/-- The lead is one quarter and more of the unit of a number from `2 ^ 34` on. -/
theorem worth_lead : (2 : ℚ) ^ (-20 : Int) < lead.worth ∧ lead.worth < 2 ^ (-19 : Int) := by
  have hmagnitude : lead.magnitude = ⟨4722366482869645, -72, false⟩ := by decide +kernel
  rw [Timestamp.worth, hmagnitude, Magnitude.worth]
  norm_num

/-- A timestamp is not negative. -/
theorem not_val_lt_zero (time : Timestamp) : ¬ time.val < 0 :=
  fun h => Timestamp.lt_iff_not_le.1 (show time < .zero from h) time.nonneg

/-- The end of a flow is a timestamp. It is worth nothing if the target is not later than the lead,
and otherwise what the exact difference is rounded to. -/
theorem flowEndTime_cases (target : Timestamp) : ∃ finish : Timestamp,
    finish.val = flowEndTime target ∧
      ((target.worth ≤ lead.worth ∧ finish.worth = 0) ∨
        (lead.worth < target.worth ∧ ∃ x, Canonical x ∧ x.Holds (target.worth - lead.worth) ∧
          finish.worth = x.worth)) := by
  have htime : flowEndTime target =
      if target.val - lead.val < 0 then 0 else target.val - lead.val := rfl
  obtain ⟨hlt, x, canonical, hx, h⟩ | ⟨heq, sign, h⟩ | ⟨hlt, x, canonical, hx, h⟩ :=
    Timestamp.sub_cases target lead
  · obtain ⟨finish, hfinish, hworth⟩ := Timestamp.exists_of_unpack_finite canonical h
    rw [htime, ← hfinish, if_neg (not_val_lt_zero finish)]
    exact ⟨finish, rfl, Or.inr ⟨hlt, x, canonical, hx, hworth⟩⟩
  · obtain ⟨finish, hfinish, hworth⟩ := Timestamp.exists_of_unpack_zero h
    rw [htime, ← hfinish, if_neg (not_val_lt_zero finish)]
    exact ⟨finish, rfl, Or.inl ⟨heq.le, hworth⟩⟩
  · have hneg : target.val - lead.val < 0 := by
      rw [Timestamp.lt_iff_compare, h]
      rfl
    rw [htime, if_pos hneg]
    exact ⟨.zero, rfl, Or.inl ⟨hlt.le, Timestamp.worth_zero⟩⟩

theorem isTimestamp_flowEndTime (target : Timestamp) :
    (flowEndTime target).isFinite = true ∧ (0 : Float) ≤ flowEndTime target := by
  obtain ⟨finish, hfinish, -⟩ := flowEndTime_cases target
  rw [← hfinish]
  exact ⟨finish.isFinite, finish.nonneg⟩

/-- The end of a flow to a target at some time. -/
def flowEnd (target : Timestamp) : Timestamp :=
  ⟨flowEndTime target, (isTimestamp_flowEndTime target).1, (isTimestamp_flowEndTime target).2⟩

/-- A flow to a target that is not later than the lead ends at zero, and any other one when the
exact difference says, rounded. -/
theorem worth_flowEnd (target : Timestamp) :
    (target.worth ≤ lead.worth ∧ (flowEnd target).worth = 0) ∨
      (lead.worth < target.worth ∧ ∃ x, Canonical x ∧ x.Holds (target.worth - lead.worth) ∧
        (flowEnd target).worth = x.worth) := by
  obtain ⟨⟨time, hfinite, hnonneg⟩, hfinish, hcases⟩ := flowEndTime_cases target
  obtain rfl : time = flowEndTime target := hfinish
  exact hcases

/-! ## Where a nanosecond is too little -/

variable {x : Magnitude}

/-- The lower end of a rounding interval is a quarter of a unit or two below the magnitude. -/
theorem lower_worth (canonical : Canonical x) : (x.lower : ℚ) * 2 ^ (x.q - 2) =
    x.worth - if x.narrowBelow then 2 ^ (x.q - 2) else 2 ^ (x.q - 1) := by
  have hpos := canonical.pos
  have hhalf : (2 : ℚ) ^ (x.q - 1) = 2 * 2 ^ (x.q - 2) := by
    rw [← zpow_one_add₀ two_ne_zero]
    congr 1
    omega
  rw [lower_eq, Nat.cast_sub (by split <;> omega), Magnitude.worth, four_quarters x.q, hhalf]
  split
  · push_cast
    ring
  · push_cast
    ring

/-- Above `2 ^ 34`, a magnitude less the lead is rounded back to the magnitude. -/
theorem holds_sub_lead (canonical : Canonical x) (hgreat : 2 ^ (34 : Int) < x.worth) :
    x.Holds (x.worth - lead.worth) := by
  have hlead : (0 : ℚ) < lead.worth := lt_trans (by positivity) worth_lead.1
  have hlower : x.lower * 2 ^ (x.q - 2) < x.worth - lead.worth := by
    rw [lower_worth canonical]
    refine sub_lt_sub_left (worth_lead.2.trans_le ?_) _
    split
    · rename_i hnarrow
      rw [worth_of_least (canonical.narrow.1 hnarrow).1] at hgreat
      have hq := (zpow_lt_zpow_iff_right₀ one_lt_two).1 hgreat
      exact zpow_le_zpow_right₀ one_le_two (by omega)
    · have hq := (zpow_lt_zpow_iff_right₀ one_lt_two).1 (hgreat.trans (worth_lt canonical))
      exact zpow_le_zpow_right₀ one_le_two (by omega)
  have hupper : x.worth - lead.worth < x.worth := sub_lt_self _ hlead
  have hholds := Magnitude.holds_worth canonical.pos
  exact ⟨hlower.le, hupper.le.trans hholds.upper, fun _ => ⟨hlower, hupper.trans_le hholds.upper⟩⟩

/-- Up to `2 ^ 34`, a magnitude less the lead lies below the rounding interval of the magnitude. -/
theorem not_holds_sub_lead (canonical : Canonical x) (hle : x.worth ≤ 2 ^ (34 : Int)) :
    ¬ x.Holds (x.worth - lead.worth) := by
  intro hholds
  have hlower := hholds.lower
  rw [lower_worth canonical, sub_le_sub_iff_left] at hlower
  refine absurd (worth_lead.1.trans_le hlower) (not_lt.2 ?_)
  have hq : x.q ≤ -18 := by
    rcases canonical.full with hfull | hleast
    · have := (zpow_le_zpow_iff_right₀ one_lt_two).1 ((le_worth hfull).trans hle)
      omega
    · omega
  split
  · exact zpow_le_zpow_right₀ one_le_two (by omega)
  · rename_i hnarrow
    refine zpow_le_zpow_right₀ one_le_two ?_
    by_contra hgreat
    -- under the exponent -18 only the least significand is not greater than `2 ^ 34`
    have hexponent : x.q = -18 := by omega
    have hpower : (2 : ℚ) ^ (34 : Int) = 2 ^ 52 * 2 ^ (-18 : Int) := by norm_num
    rw [Magnitude.worth, hexponent, hpower] at hle
    have hle : (x.m : ℚ) ≤ 2 ^ 52 := le_of_mul_le_mul_right hle (by positivity)
    have hle : x.m ≤ 2 ^ 52 := by exact_mod_cast hle
    have hfull := canonical.full.resolve_right (by omega)
    exact hnarrow (canonical.narrow.2 ⟨by omega, by omega⟩)

/-- A flow ends before its target exactly if the target is later than zero and not later than
`2 ^ 34` milliseconds. -/
theorem flowEnd_lt_iff (target : Timestamp) :
    flowEnd target < target ↔ 0 < target.worth ∧ target.worth ≤ 2 ^ 34 := by
  have hpower : (2 : ℚ) ^ 34 = 2 ^ (34 : Int) := (zpow_natCast 2 34).symm
  have hlead : 0 < lead.worth := lt_trans (by positivity) worth_lead.1
  have hshort : lead.worth < 2 ^ (34 : Int) :=
    worth_lead.2.trans_le (zpow_le_zpow_right₀ one_le_two (by decide))
  rw [Timestamp.lt_iff_worth_lt, hpower]
  obtain ⟨hle, hzero⟩ | ⟨hlt, x, canonical, hx, hworth⟩ := worth_flowEnd target
  · rw [hzero]
    exact ⟨fun h => ⟨h, hle.trans hshort.le⟩, And.left⟩
  · obtain ⟨hzero, -⟩ | ⟨htarget, -⟩ := target.magnitude_cases
    · exact absurd (hlead.trans hlt) hzero.not_gt
    · rw [hworth]
      constructor
      · refine fun hless => ⟨hlead.trans hlt, le_of_not_gt fun hgreat => ?_⟩
        -- the end would be rounded back to the target
        rw [eq_of_holds canonical htarget hx (holds_sub_lead htarget hgreat)] at hless
        exact hless.false
      · rintro ⟨-, hle⟩
        have hbelow := worth_le_of_holds canonical htarget hx (sub_le_self _ hlead.le)
        refine lt_of_le_of_ne hbelow fun heq => not_holds_sub_lead htarget hle ?_
        have hsame : target.magnitude.Holds x.worth := by
          rw [heq]
          exact Magnitude.holds_worth htarget.pos
        rw [eq_of_holds canonical htarget (Magnitude.holds_worth canonical.pos) hsame] at hx
        exact hx

/-! ## The events of a flow -/

/-- The start of a flow: at the time and in the scope of its source. -/
def flowStartEvent (name : String) (h : name ≠ "") (source : Event) (number : UInt64) : Event :=
  ⟨name, .flowBegin, source.time, source.scope, some number, [], h⟩

/-- The end of a flow: just before its target in time, in the scope of the target. -/
def flowEndEvent (name : String) (h : name ≠ "") (target : Event) (number : UInt64) : Event :=
  ⟨name, .flowEnd, flowEnd target.time, target.scope, some number, [], h⟩

/-- The two events of a flow can be made exactly if its name is not empty. -/
theorem flowEvents_eq (name : String) (source target : Event) (number : UInt64) :
    flowEvents name source target number =
      if h : name = "" then .error .emptyName
      else .ok (flowStartEvent name h source number, flowEndEvent name h target number) := by
  split
  · rename_i hempty
    subst hempty
    rfl
  · rename_i hname
    show (do
      let start ← Event.make name .flowBegin source.time.val
      let finish ← Event.make name .flowEnd (flowEnd target.time).val
      .ok ((start.withFlow number).inScope source.scope,
        (finish.withFlow number).inScope target.scope)) = _
    rw [Event.make_val hname, Event.make_val hname]
    rfl

end EventChains.Trace
