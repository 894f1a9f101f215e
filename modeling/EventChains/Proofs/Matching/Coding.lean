import EventChains.Matching.Candidate
import EventChains.Proofs.KeyOrder
import Mathlib.Data.Finset.Erase
import Mathlib.Data.Finset.Insert
import Mathlib.Data.List.Nodup
import Mathlib.Data.List.Sort
import Mathlib.Data.Set.Insert

/-!
# Sorted sets and numbered values

The search keeps its sets as sorted lists. `SortedSet.mem_insert` and its companions say that these
lists behave as sets, and `SortedSet.Lists` ties a list to the set of its members. Kinds are listed
by their numbers: a value has the place where it first occurred as its number, cut to 32 bits
(`Numbering.Valid`), and `Numbering.Valid.tellsApart` says when numbers tell values apart. Then a
list of numbers stands for a set of values (`Codes`). Whether they do or not, `NumbersOf` says that
the list has the numbers of some values and no others.
-/

namespace EventChains.Matching

/-! ## Sorted sets -/

namespace SortedSet

variable {α : Type} [LT α]

/-- Values in increasing order. -/
def Sorted (items : SortedSet α) : Prop :=
  items.Pairwise (· < ·)

theorem sorted_nil : Sorted ([] : SortedSet α) :=
  List.Pairwise.nil

theorem sorted_singleton (a : α) : Sorted [a] :=
  List.pairwise_singleton _ a

/-- Sorted lists with the same members are equal. -/
theorem Sorted.ext [IsStrictTotalOrder α (· < ·)] {items others : SortedSet α}
    (sorted : items.Sorted) (hothers : others.Sorted) (h : ∀ a, a ∈ items ↔ a ∈ others) :
    items = others :=
  List.Pairwise.eq_of_mem_iff sorted hothers h

variable [DecidableLT α] [DecidableEq α] {items : SortedSet α} {a b : α}

theorem mem_insert : b ∈ SortedSet.insert a items ↔ b = a ∨ b ∈ items := by
  induction items with
  | nil => simp [insert]
  | cons c rest ih =>
      rw [insert]
      split
      · simp
      · split
        · simp_all
        · simp [ih, or_left_comm]

/-- A value that is not found in a set makes it longer by one. -/
theorem length_insert (h : ¬ items.has a = true) :
    (SortedSet.insert a items).length = items.length + 1 := by
  induction items with
  | nil => rfl
  | cons c rest ih =>
      rw [has] at h
      rw [insert]
      split
      · rfl
      · rename_i hle
        rw [if_neg hle] at h
        simp only [Bool.or_eq_true, beq_iff_eq, not_or] at h
        rw [if_neg h.1, List.length_cons, ih h.2, List.length_cons]

variable [IsStrictTotalOrder α (· < ·)]

omit [DecidableLT α] [DecidableEq α] in
/-- Nothing before the first of some values in increasing order is among them. -/
theorem not_mem_of_lt_head {c : α} {rest : List α} (hlt : ∀ b ∈ rest, c < b) (h : a < c) :
    a ∉ c :: rest := by
  intro hmem
  rcases List.mem_cons.1 hmem with rfl | hmem
  · exact irrefl_of (· < ·) a h
  · exact irrefl_of (· < ·) a (trans_of (· < ·) h (hlt a hmem))

/-- In a sorted list the search for a value finds every member. -/
theorem has_iff_mem (sorted : items.Sorted) (a : α) : items.has a = true ↔ a ∈ items := by
  induction items with
  | nil => simp [has]
  | cons c rest ih =>
      obtain ⟨hlt, hrest⟩ := List.pairwise_cons.1 sorted
      rw [has]
      split
      · -- the search stops here, and all later members are greater still
        rename_i hac
        simpa using not_mem_of_lt_head hlt hac
      · simp [ih hrest]

theorem sorted_insert (sorted : items.Sorted) (a : α) : (SortedSet.insert a items).Sorted := by
  induction items with
  | nil => exact sorted_singleton a
  | cons c rest ih =>
      obtain ⟨hlt, hrest⟩ := List.pairwise_cons.1 sorted
      rw [insert]
      split
      · rename_i hac
        refine List.pairwise_cons.2 ⟨fun b hb => ?_, sorted⟩
        rcases List.mem_cons.1 hb with rfl | hb
        · exact hac
        · exact trans_of (· < ·) hac (hlt b hb)
      · rename_i hac
        split
        · exact sorted
        · rename_i hne
          refine List.pairwise_cons.2 ⟨fun b hb => ?_, ih hrest⟩
          rcases mem_insert.1 hb with rfl | hb
          · exact ((trichotomous_of (· < ·) b c).resolve_left hac).resolve_left hne
          · exact hlt b hb

theorem mem_erase (sorted : items.Sorted) : b ∈ SortedSet.erase a items ↔ b ≠ a ∧ b ∈ items := by
  induction items with
  | nil => simp [erase]
  | cons c rest ih =>
      obtain ⟨hlt, hrest⟩ := List.pairwise_cons.1 sorted
      have hc : c ∉ rest := fun hc => irrefl_of (· < ·) c (hlt c hc)
      rw [erase]
      split
      · rename_i hac
        have ha := not_mem_of_lt_head hlt hac
        grind
      · split
        · grind
        · have := ih hrest
          grind

theorem sorted_erase (sorted : items.Sorted) (a : α) : (SortedSet.erase a items).Sorted := by
  induction items with
  | nil => exact sorted_nil
  | cons c rest ih =>
      obtain ⟨hlt, hrest⟩ := List.pairwise_cons.1 sorted
      rw [erase]
      split
      · exact sorted
      · split
        · exact hrest
        · exact List.pairwise_cons.2 ⟨fun b hb => hlt b ((mem_erase hrest).1 hb).2, ih hrest⟩

end SortedSet

/-- A sorted list that has the members of a set. -/
structure SortedSet.Lists {α : Type} [LT α] (items : SortedSet α) (values : Set α) : Prop where
  sorted : items.Sorted
  mem_iff : ∀ {a}, a ∈ items ↔ a ∈ values

namespace SortedSet.Lists

variable {α : Type} [LT α] {items : SortedSet α} {values : Set α}

protected theorem empty : Lists [] (∅ : Set α) :=
  ⟨sorted_nil, by simp⟩

variable [DecidableLT α] [DecidableEq α] [IsStrictTotalOrder α (· < ·)]

/-- Looking up a value decides whether it is in the set. -/
theorem has_iff (lists : Lists items values) (a : α) : items.has a = true ↔ a ∈ values :=
  (has_iff_mem lists.sorted a).trans lists.mem_iff

protected theorem insert (lists : Lists items values) (a : α) :
    Lists (SortedSet.insert a items) (Insert.insert a values) where
  sorted := sorted_insert lists.sorted a
  mem_iff := by simp [mem_insert, lists.mem_iff]

protected theorem erase (lists : Lists items values) (a : α) :
    Lists (SortedSet.erase a items) (values \ {a}) where
  sorted := sorted_erase lists.sorted a
  mem_iff := by simp [mem_erase lists.sorted, lists.mem_iff, and_comm]

end SortedSet.Lists

/-! ## Numbers of values -/

variable {α : Type} [BEq α] [Hashable α] {numbering : Numbering α}

namespace Numbering

/-- A numbering gives some values, each listed once, their places in the list as numbers, cut to 32
bits, and gives no number to any other value. -/
structure Valid (numbering : Numbering α) (values : List α) : Prop where
  nodup : values.Nodup
  size_eq : numbering.numbers.size = values.length
  get?_eq_some_iff : ∀ {a n},
    numbering.get? a = some n ↔ ∃ k : Nat, values[k]? = some a ∧ k.toUInt32 = n

/-- Different values have different numbers. -/
def TellsApart (numbering : Numbering α) : Prop :=
  ∀ ⦃a b n⦄, numbering.get? a = some n → numbering.get? b = some n → a = b

/-- Numbers of 32 bits tell up to `UInt32.size` values apart. -/
theorem Valid.tellsApart {values : List α} (valid : numbering.Valid values)
    (h : values.length ≤ UInt32.size) : numbering.TellsApart := by
  intro a b n ha hb
  obtain ⟨i, hi, hin⟩ := valid.get?_eq_some_iff.1 ha
  obtain ⟨j, hj, hjn⟩ := valid.get?_eq_some_iff.1 hb
  have hlt := (List.getElem?_eq_some_iff.1 hi).1
  have hlt' := (List.getElem?_eq_some_iff.1 hj).1
  have hij : i % UInt32.size = j % UInt32.size := congrArg UInt32.toNat (hin.trans hjn.symm)
  rw [Nat.mod_eq_of_lt (hlt.trans_le h), Nat.mod_eq_of_lt (hlt'.trans_le h)] at hij
  subst hij
  exact Option.some.inj (hi.symm.trans hj)

/-- The values with a number are those in the list. -/
theorem Valid.isSome_get?_iff {values : List α} (valid : numbering.Valid values) {a : α} :
    (numbering.get? a).isSome ↔ a ∈ values := by
  rw [Option.isSome_iff_exists, List.mem_iff_getElem?]
  constructor
  · rintro ⟨n, hn⟩
    obtain ⟨k, hk, _⟩ := valid.get?_eq_some_iff.1 hn
    exact ⟨k, hk⟩
  · rintro ⟨k, hk⟩
    exact ⟨_, valid.get?_eq_some_iff.2 ⟨k, hk, rfl⟩⟩

section Assign

variable [LawfulBEq α]

theorem valid_empty : Valid ({} : Numbering α) [] where
  nodup := List.nodup_nil
  size_eq := rfl
  get?_eq_some_iff := by simp [get?]

variable [DecidableEq α]

/-- Giving a value its number changes the number of no other value. -/
theorem get?_assign (numbering : Numbering α) (a b : α) :
    (numbering.assign a).2.get? b =
      if b = a then some (numbering.assign a).1 else numbering.get? b := by
  unfold assign
  split
  · rename_i n hn
    split
    · subst b
      exact hn
    · rfl
  · dsimp only [get?]
    rw [Std.HashMap.getElem?_insert]
    grind

/-- Values keep the numbers that they have. -/
theorem get?_assign_of_get? {b : α} {n : UInt32} (a : α) (h : numbering.get? b = some n) :
    (numbering.assign a).2.get? b = some n := by
  rw [get?_assign]
  split
  · subst b
    simp [assign, h]
  · exact h

theorem get?_assign_self (numbering : Numbering α) (a : α) :
    (numbering.assign a).2.get? a = some (numbering.assign a).1 := by
  rw [get?_assign, if_pos rfl]

/-- A value that has a number keeps it, and a new one is listed last. -/
theorem Valid.assign {values : List α} (valid : numbering.Valid values) (a : α) :
    ∃ more, (numbering.assign a).2.Valid more ∧ ∀ b, b ∈ more ↔ b = a ∨ b ∈ values := by
  cases ha : numbering.get? a with
  | some n =>
      have hmem : a ∈ values := valid.isSome_get?_iff.1 (by rw [ha]; rfl)
      refine ⟨values, by simpa [Numbering.assign, ha] using valid, fun b => ?_⟩
      simp only [iff_or_self]
      rintro rfl
      exact hmem
  | none =>
      have hnew : a ∉ values := by
        rw [← valid.isSome_get?_iff, ha]
        exact Bool.false_ne_true
      have hnodup : (values ++ [a]).Nodup := by
        rw [List.nodup_append']
        exact ⟨valid.nodup, List.nodup_singleton a, by simpa using hnew⟩
      have hlast : (values ++ [a])[values.length]? = some a := by simp
      have hnext : (numbering.assign a).1 = values.length.toUInt32 := by
        simp [Numbering.assign, ha, next, valid.size_eq]
      refine ⟨values ++ [a], ⟨hnodup, ?_, fun {b n} => ?_⟩, by simp [or_comm]⟩
      · have : a ∉ numbering.numbers := by simpa [get?] using ha
        simp [Numbering.assign, ha, Std.HashMap.size_insert, this, valid.size_eq]
      · rw [get?_assign, hnext]
        by_cases hba : b = a
        · subst hba
          rw [if_pos rfl]
          constructor
          · rintro ⟨rfl⟩
            exact ⟨values.length, hlast, rfl⟩
          · rintro ⟨k, hk, rfl⟩
            have hlt := (List.getElem?_eq_some_iff.1 hk).1
            rw [(List.getElem?_inj hlt hnodup).1 (hk.trans hlast.symm)]
        · rw [if_neg hba, valid.get?_eq_some_iff]
          refine exists_congr fun k => and_congr_left fun _ => ?_
          rw [List.getElem?_append]
          split
          · rfl
          · rename_i hge
            rw [List.getElem?_eq_none (by omega)]
            simp [List.getElem?_singleton, Ne.symm hba]

end Assign

end Numbering

/-- Sorted numbers that stand for a set of values. -/
structure Codes (numbering : Numbering α) (codes : SortedSet UInt32) (values : Finset α) :
    Prop where
  sorted : codes.Sorted
  mem_iff : ∀ {a n}, numbering.get? a = some n → (n ∈ codes ↔ a ∈ values)

namespace Codes

variable {codes : SortedSet UInt32} {values : Finset α} {a : α} {n : UInt32}

protected theorem empty : Codes numbering [] ∅ :=
  ⟨SortedSet.sorted_nil, fun _ => by simp⟩

/-- Looking up a number is looking up its value. -/
theorem has_iff (coded : Codes numbering codes values) (h : numbering.get? a = some n) :
    codes.has n = true ↔ a ∈ values :=
  (SortedSet.has_iff_mem coded.sorted n).trans (coded.mem_iff h)

/-- Where numbers tell values apart, adding a number is adding its value. -/
protected theorem insert [DecidableEq α] (apart : numbering.TellsApart)
    (coded : Codes numbering codes values) (h : numbering.get? a = some n) :
    Codes numbering (SortedSet.insert n codes) (insert a values) where
  sorted := SortedSet.sorted_insert coded.sorted n
  mem_iff {b m} hb := by
    have heq : m = n ↔ b = a := by
      constructor
      · rintro rfl
        exact apart hb h
      · rintro rfl
        exact Option.some.inj (hb.symm.trans h)
    rw [SortedSet.mem_insert, Finset.mem_insert, coded.mem_iff hb, heq]

end Codes

/-- Sorted numbers that are those of some values and no others. -/
structure NumbersOf (numbering : Numbering α) (values : Set α) (numbers : SortedSet UInt32) :
    Prop where
  sorted : numbers.Sorted
  mem_iff : ∀ {n}, n ∈ numbers ↔ ∃ a ∈ values, numbering.get? a = some n
  numbered : ∀ a ∈ values, ∃ n, numbering.get? a = some n

namespace NumbersOf

variable {values : Set α} {numbers : SortedSet UInt32} {a : α} {n : UInt32}

protected theorem empty : NumbersOf numbering ∅ [] :=
  ⟨SortedSet.sorted_nil, by simp, by simp⟩

protected theorem insert (exactly : NumbersOf numbering values numbers)
    (h : numbering.get? a = some n) :
    NumbersOf numbering (insert a values) (SortedSet.insert n numbers) where
  sorted := SortedSet.sorted_insert exactly.sorted n
  mem_iff {m} := by
    rw [SortedSet.mem_insert, exactly.mem_iff]
    simp [Set.mem_insert_iff, h, eq_comm]
  numbered b hb := by
    rcases Set.mem_insert_iff.1 hb with rfl | hb
    · exact ⟨n, h⟩
    · exact exactly.numbered b hb

end NumbersOf

end EventChains.Matching
