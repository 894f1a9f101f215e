/-!
# Blank characters

White space is the Unicode property `White_Space`, in every part of the project that trims or
splits text. The main statements are `isBlank_of_isWhitespace` (the ASCII blanks of the core
library are blank here too), `skipBlanks_eq_nil_iff` and `not_isBlank_of_skipBlanks` (what skipping
blanks leaves).
-/

namespace EventChains.Text

/-- A character with the Unicode property `White_Space`: 25 code points, in two ranges and nine
single places. -/
def isBlank (c : Char) : Bool :=
  let n := c.toNat
  (0x09 ≤ n && n ≤ 0x0D) || n == 0x20 || n == 0x85 || n == 0xA0 || n == 0x1680 ||
    (0x2000 ≤ n && n ≤ 0x200A) || n == 0x2028 || n == 0x2029 || n == 0x202F || n == 0x205F ||
    n == 0x3000

/-- The text without its leading blanks. -/
def skipBlanks (text : List Char) : List Char :=
  text.dropWhile isBlank

/-- The text without the blanks at its two ends. -/
def trim (text : List Char) : List Char :=
  (skipBlanks (skipBlanks text).reverse).reverse

/-- Every ASCII blank of the core library is blank. -/
theorem isBlank_of_isWhitespace {c : Char} (h : c.isWhitespace = true) : isBlank c = true := by
  simp only [Char.isWhitespace, Bool.or_eq_true, decide_eq_true_eq] at h
  rcases h with ((rfl | rfl) | rfl) | rfl <;> rfl

/-- Skipping blanks leaves a text that starts with no blank. -/
theorem not_isBlank_of_skipBlanks {text rest : List Char} {c : Char}
    (h : skipBlanks text = c :: rest) : isBlank c = false := by
  have hhead := List.head?_dropWhile_not isBlank text
  simp only [skipBlanks] at h
  simpa [h] using hhead

/-- Skipping blanks never lengthens a text. -/
theorem length_skipBlanks_le (text : List Char) : (skipBlanks text).length ≤ text.length :=
  (List.dropWhile_sublist isBlank).length_le

/-- Nothing is left of a text exactly when all its characters are blank. -/
theorem skipBlanks_eq_nil_iff {text : List Char} :
    skipBlanks text = [] ↔ ∀ c ∈ text, isBlank c = true := by
  induction text with
  | nil => simp [skipBlanks]
  | cons c rest ih =>
      cases hc : isBlank c
      · simp [skipBlanks, hc]
      · simp only [skipBlanks, List.dropWhile_cons, hc, ↓reduceIte, List.mem_cons, forall_eq_or_imp,
          true_and]
        exact ih

end EventChains.Text
