import EventChains.Text.Blank
import Mathlib.Data.List.Basic
import Mathlib.Data.List.TakeWhile

/-!
# Trimmed texts

Trimming takes the blanks off the two ends of a text. `trim_eq_iff` says so from the other side: a
text is trimmed to a core exactly if it is the core between blanks, and the core neither starts nor
ends with a blank.
-/

namespace EventChains.Text

/-- Nothing but blanks. -/
def Blanks (text : List Char) : Prop :=
  ∀ c ∈ text, isBlank c = true

instance (text : List Char) : Decidable (Blanks text) :=
  List.decidableBAll _ text

/-- A text without blanks at its two ends. -/
structure Bare (text : List Char) : Prop where
  head : ∀ c ∈ text.head?, isBlank c = false
  last : ∀ c ∈ text.getLast?, isBlank c = false

theorem Blanks.reverse {text : List Char} (h : Blanks text) : Blanks text.reverse :=
  fun c hc => h c (List.mem_reverse.1 hc)

theorem Blanks.append {text rest : List Char} (h : Blanks text) (hrest : Blanks rest) :
    Blanks (text ++ rest) :=
  fun c hc => (List.mem_append.1 hc).elim (h c) (hrest c)

theorem Bare.reverse {text : List Char} (h : Bare text) : Bare text.reverse where
  head := by
    rw [List.head?_reverse]
    exact h.last
  last := by
    rw [List.getLast?_reverse]
    exact h.head

theorem bare_nil : Bare [] :=
  ⟨fun _ h => by contradiction, fun _ h => by contradiction⟩

/-- A text is its leading blanks and what skipping them leaves. -/
theorem exists_skipBlanks (text : List Char) :
    ∃ before, Blanks before ∧ text = before ++ skipBlanks text := by
  refine ⟨text.takeWhile isBlank, fun c hc => ?_, List.takeWhile_append_dropWhile.symm⟩
  exact List.mem_takeWhile_imp hc

theorem head_skipBlanks (text : List Char) : ∀ c ∈ (skipBlanks text).head?, isBlank c = false := by
  intro c hc
  obtain ⟨rest, hrest⟩ := List.head?_eq_some_iff.1 hc
  exact not_isBlank_of_skipBlanks hrest

/-- Blanks before a text that starts with none are skipped, and nothing else is. -/
theorem skipBlanks_append {before text : List Char} (hbefore : Blanks before)
    (htext : ∀ c ∈ text.head?, isBlank c = false) : skipBlanks (before ++ text) = text := by
  rw [skipBlanks, List.dropWhile_append_of_pos hbefore]
  cases text with
  | nil => rfl
  | cons c rest => rw [List.dropWhile_cons_of_neg (by simp [htext c rfl])]

/-- Skipping blanks keeps the end of a text that does not vanish. -/
theorem getLast?_skipBlanks {text : List Char} (h : skipBlanks text ≠ []) :
    (skipBlanks text).getLast? = text.getLast? := by
  obtain ⟨before, _, htext⟩ := exists_skipBlanks text
  have hlast := List.getLast?_append_of_ne_nil before h
  rw [← htext] at hlast
  exact hlast.symm

theorem bare_trim (text : List Char) : Bare (trim text) := by
  refine Bare.reverse ⟨head_skipBlanks _, ?_⟩
  by_cases h : skipBlanks (skipBlanks text).reverse = []
  · rw [h]
    exact bare_nil.last
  · rw [getLast?_skipBlanks h, List.getLast?_reverse]
    exact head_skipBlanks text

/-- A text is trimmed to the core that it has between blanks. -/
theorem trim_eq_iff {text core : List Char} :
    trim text = core ↔
      Bare core ∧
        ∃ before after, Blanks before ∧ Blanks after ∧ text = before ++ core ++ after := by
  constructor
  · rintro rfl
    obtain ⟨before, hbefore, htext⟩ := exists_skipBlanks text
    obtain ⟨after, hafter, hrest⟩ := exists_skipBlanks (skipBlanks text).reverse
    refine ⟨bare_trim text, before, after.reverse, hbefore, hafter.reverse, ?_⟩
    have hskipped : skipBlanks text = trim text ++ after.reverse := by
      rw [← List.reverse_reverse (skipBlanks text), hrest, List.reverse_append, trim]
    rw [List.append_assoc, ← hskipped, ← htext]
  · rintro ⟨bare, before, after, hbefore, hafter, rfl⟩
    cases core with
    | nil =>
        rw [List.append_nil, trim, skipBlanks_eq_nil_iff.2 (hbefore.append hafter)]
        rfl
    | cons first rest =>
        have hfirst : skipBlanks (before ++ (first :: rest ++ after)) = first :: rest ++ after :=
          skipBlanks_append hbefore bare.head
        rw [trim, List.append_assoc, hfirst, List.reverse_append,
          skipBlanks_append hafter.reverse bare.reverse.head, List.reverse_reverse]

theorem trim_eq_nil_iff {text : List Char} : trim text = [] ↔ Blanks text := by
  rw [trim_eq_iff]
  constructor
  · rintro ⟨_, before, after, hbefore, hafter, rfl⟩
    rw [List.append_nil]
    exact hbefore.append hafter
  · intro h
    exact ⟨bare_nil, text, [], h, fun _ hc => by contradiction, by simp⟩

end EventChains.Text
