import EventChains.Json.Basic
import Mathlib.Data.List.Induction
import Mathlib.Data.List.Nodup

/-!
# Fields that are set one after the other

Fields that are set in an empty object stand where their keys were set first (`keys_putAll`) and
have the values that were set last (`get?_putAll`). As each key is there once (`nodup_keys_putAll`),
this tells the fields in full (`eq_of_get?_eq`).
-/

namespace EventChains.Json.Fields

variable {fields others : Fields}

/-- A key that is set keeps its place; a new one comes last. -/
theorem keys_put (fields : Fields) (key : String) (value : Json) :
    (fields.put key value).map Prod.fst =
      if key ∈ fields.map Prod.fst then fields.map Prod.fst else fields.map Prod.fst ++ [key] := by
  induction fields with
  | nil => rfl
  | cons field rest ih =>
      rw [put]
      split_ifs with hkey hmem hmem
      · rw [List.map_cons, List.map_cons, hkey]
      · exact absurd (hkey ▸ List.mem_cons_self) hmem
      · have hrest : key ∈ rest.map Prod.fst :=
          (List.mem_cons.1 hmem).resolve_left fun heq => hkey heq.symm
        rw [List.map_cons, ih, if_pos hrest, List.map_cons]
      · have hrest : key ∉ rest.map Prod.fst := fun hrest => hmem (List.mem_cons_of_mem _ hrest)
        rw [List.map_cons, ih, if_neg hrest, List.map_cons, List.cons_append]

theorem putAll_concat (fields : Fields) (news : List (String × Json)) (field : String × Json) :
    fields.putAll (news ++ [field]) = (fields.putAll news).put field.1 field.2 := by
  rw [putAll, List.foldl_append]
  rfl

/-- Fields stand in the order in which their keys were set first. -/
theorem keys_putAll (news : List (String × Json)) :
    (putAll [] news).map Prod.fst = (news.map Prod.fst).eraseDups := by
  induction news using List.reverseRecOn with
  | nil => rfl
  | append_singleton news field ih =>
      rw [putAll_concat, keys_put, ih, List.map_append, List.eraseDups_append]
      split_ifs with hmem
      · simp [List.removeAll, List.mem_eraseDups.1 hmem]
      · simp [List.removeAll, mt List.mem_eraseDups.2 hmem, List.eraseDups_cons]

/-- Each key that is set is there once. -/
theorem nodup_keys_putAll (news : List (String × Json)) :
    ((putAll [] news).map Prod.fst).Nodup := by
  induction news using List.reverseRecOn with
  | nil => exact List.nodup_nil
  | append_singleton news field ih =>
      rw [putAll_concat, keys_put]
      split_ifs with hmem
      · exact ih
      · exact List.nodup_append.2 ⟨ih, List.nodup_singleton _, by grind⟩

/-- A field has the value that was set last. -/
theorem get?_putAll (news : List (String × Json)) (key : String) :
    (putAll [] news).get? key = (news.filter (·.1 = key)).getLast?.map Prod.snd := by
  induction news using List.reverseRecOn with
  | nil => rfl
  | append_singleton news field ih =>
      rw [putAll_concat, get?_put, List.filter_append]
      by_cases hkey : key = field.1
      · rw [if_pos hkey, List.filter_cons_of_pos (by simp [hkey]), List.filter_nil,
          List.getLast?_concat, Option.map_some]
      · rw [if_neg hkey, ih, List.filter_cons_of_neg (by simp [Ne.symm hkey]), List.filter_nil,
          List.append_nil]

/-- Fields with the same keys, each there once, and the same values are the same. -/
theorem eq_of_get?_eq (hkeys : fields.map Prod.fst = others.map Prod.fst)
    (hnodup : (fields.map Prod.fst).Nodup)
    (hvalues : ∀ key ∈ fields.map Prod.fst, fields.get? key = others.get? key) :
    fields = others := by
  induction fields generalizing others with
  | nil => exact (List.map_eq_nil_iff.1 hkeys.symm).symm
  | cons field rest ih =>
      cases others with
      | nil => contradiction
      | cons other others =>
          obtain ⟨hkey, hrestKeys⟩ := List.cons_eq_cons.1 hkeys
          obtain ⟨hnew, hnodup⟩ := List.nodup_cons.1 hnodup
          have hvalue := hvalues field.1 List.mem_cons_self
          rw [get?, if_pos rfl, get?, if_pos hkey.symm] at hvalue
          obtain rfl : field = other := Prod.ext hkey (Option.some.inj hvalue)
          refine congrArg _ (ih hrestKeys hnodup fun key hmem => ?_)
          have hne : field.1 ≠ key := fun heq => hnew (heq ▸ hmem)
          have hrest := hvalues key (List.mem_cons_of_mem _ hmem)
          rwa [get?, if_neg hne, get?, if_neg hne] at hrest

end EventChains.Json.Fields
