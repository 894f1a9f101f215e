import EventChains.Matching.Course
import Mathlib.Order.RelClasses

/-!
# The order of keys

Tables of names and sorted sets rely on the order of their keys being a strict total order. Numbers
and strings have one. A scope is compared by process and thread, a flow by name and number, and
`lexicographic` says that two such comparisons one after the other make a strict total order again.
-/

namespace EventChains

open Matching

/-- What is compared by one part, and by a second part where the first one is equal, is in a strict
total order if both parts are, and if there is nothing but the two parts. -/
theorem lexicographic {α β γ : Type} {lt : β → β → Prop} {lt' : γ → γ → Prop}
    [IsStrictTotalOrder β lt] [IsStrictTotalOrder γ lt'] (first : α → β) (second : α → γ)
    (hext : ∀ {a b}, first a = first b → second a = second b → a = b) :
    IsStrictTotalOrder α fun a b =>
      lt (first a) (first b) ∨ (first a = first b ∧ lt' (second a) (second b)) where
  irrefl a := by
    rintro (h | ⟨_, h⟩)
    · exact irrefl_of lt _ h
    · exact irrefl_of lt' _ h
  trans a b c := by
    rintro (hab | ⟨hab, hab'⟩) (hbc | ⟨hbc, hbc'⟩)
    · exact .inl (trans_of lt hab hbc)
    · exact .inl (hbc ▸ hab)
    · exact .inl (hab ▸ hbc)
    · exact .inr ⟨hab.trans hbc, trans_of lt' hab' hbc'⟩
  trichotomous a b hab hba := by
    obtain ⟨hfirst, hsecond⟩ := not_or.1 hab
    obtain ⟨hfirst', hsecond'⟩ := not_or.1 hba
    have heq : first a = first b := Std.Trichotomous.trichotomous _ _ hfirst hfirst'
    refine hext heq (Std.Trichotomous.trichotomous (r := lt') _ _ ?_ ?_)
    · exact fun h => hsecond ⟨heq, h⟩
    · exact fun h => hsecond' ⟨heq.symm, h⟩

instance isStrictTotalOrder_number : IsStrictTotalOrder UInt32 (· < ·) where

instance isStrictTotalOrder_word : IsStrictTotalOrder UInt64 (· < ·) where

instance isStrictTotalOrder_string : IsStrictTotalOrder String (· < ·) where

/-- Nothing comes before every number. -/
instance isStrictTotalOrder_option : IsStrictTotalOrder (Option UInt64) (Option.lt (· < ·)) where
  irrefl
    | none => id
    | some n => irrefl_of (· < ·) n
  trans
    | none, none, _ => fun h => h.elim
    | none, some _, none => fun _ h => h
    | none, some _, some _ => fun _ _ => trivial
    | some _, none, _ => fun h => h.elim
    | some _, some _, none => fun _ h => h
    | some _, some _, some _ => trans_of (· < ·)
  trichotomous
    | none, none => fun _ _ => rfl
    | none, some _ => fun h => absurd trivial h
    | some _, none => fun _ h => absurd trivial h
    | some n, some m => fun h h' =>
        congrArg some (Std.Trichotomous.trichotomous (r := (· < ·)) n m h h')

instance Scope.isStrictTotalOrder : IsStrictTotalOrder Scope (· < ·) :=
  lexicographic Scope.pid Scope.tid fun hpid htid => congrArg₂ Scope.mk hpid htid

instance Matching.FlowKey.isStrictTotalOrder : IsStrictTotalOrder FlowKey (· < ·) :=
  lexicographic FlowKey.name FlowKey.flow fun hname hflow => congrArg₂ FlowKey.mk hname hflow

end EventChains
