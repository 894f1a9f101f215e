/-!
# Placement in sorted order

`boundary p items` finds by bisection where a property that holds of a leading part of `items`
ceases to hold. The main statements are `boundary_le`, and `prop_iff_lt_boundary` for an array that
is split by the property.
-/

namespace EventChains

variable {α : Type}

/-- The end of the leading part of `items` with the property `p`, looked for from `low` up to
`high`. -/
def boundaryBetween (p : α → Bool) (items : Array α) (low high : Nat)
    (h : high ≤ items.size) : Nat :=
  if hlt : low < high then
    have hmiddle : (low + high) / 2 < items.size := by omega
    if p items[(low + high) / 2] then boundaryBetween p items ((low + high) / 2 + 1) high h
    else boundaryBetween p items low ((low + high) / 2) (by omega)
  else low
termination_by high - low

/-- The length of the leading part of `items` with the property `p`. -/
def boundary (p : α → Bool) (items : Array α) : Nat :=
  boundaryBetween p items 0 items.size (Nat.le_refl _)

theorem boundaryBetween_bounds (p : α → Bool) (items : Array α) (low high : Nat)
    (h : high ≤ items.size) (hle : low ≤ high) :
    low ≤ boundaryBetween p items low high h ∧ boundaryBetween p items low high h ≤ high := by
  fun_induction boundaryBetween p items low high h with
  | case1 low high h hlt hmiddle hp ih =>
      have := ih (by omega)
      omega
  | case2 low high h hlt hmiddle hp ih =>
      have := ih (by omega)
      omega
  | case3 low high h hlt => omega

/-- The boundary is a place in the array or its end. -/
theorem boundary_le (p : α → Bool) (items : Array α) : boundary p items ≤ items.size :=
  (boundaryBetween_bounds p items 0 items.size (Nat.le_refl _) (Nat.zero_le _)).2

theorem boundaryBetween_spec (p : α → Bool) (items : Array α) (low high : Nat)
    (h : high ≤ items.size) (hle : low ≤ high)
    (hsplit : ∀ i j (_ : i ≤ j) (hj : j < items.size), p items[j] = true → p items[i] = true)
    (hlow : ∀ i (hi : i < items.size), i < low → p items[i] = true)
    (hhigh : ∀ i (hi : i < items.size), high ≤ i → p items[i] = false)
    (i : Nat) (hi : i < items.size) :
    p items[i] = true ↔ i < boundaryBetween p items low high h := by
  fun_induction boundaryBetween p items low high h with
  | case1 low high h hlt hmiddle hp ih =>
      refine ih (by omega) hsplit (fun k hk hlt => ?_) hhigh
      exact hsplit k ((low + high) / 2) (by omega) hmiddle hp
  | case2 low high h hlt hmiddle hp ih =>
      refine ih (by omega) hsplit hlow (fun k hk hge => ?_)
      cases hk' : p items[k]
      · rfl
      · exact absurd (hsplit ((low + high) / 2) k hge hk hk') hp
  | case3 low high h hlt =>
      constructor
      · intro hp
        by_cases hil : i < low
        · exact hil
        · have := hhigh i hi (by omega)
          simp [this] at hp
      · exact hlow i hi

/-- Where a property splits the array, exactly the elements before the boundary have it. -/
theorem prop_iff_lt_boundary (p : α → Bool) (items : Array α)
    (hsplit : ∀ i j (_ : i ≤ j) (hj : j < items.size), p items[j] = true → p items[i] = true)
    (i : Nat) (hi : i < items.size) : p items[i] = true ↔ i < boundary p items :=
  boundaryBetween_spec p items 0 items.size (Nat.le_refl _) (Nat.zero_le _) hsplit
    (by omega) (by omega) i hi

end EventChains
