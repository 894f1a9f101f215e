/-!
# Texts in pieces

`pieces mark text` cuts a text at every `mark`. There is one piece more than there are marks, and
pieces may be empty. The main statements are `intercalate_pieces` (with the marks between them, the
pieces make the text again) and `not_mem_of_mem_pieces` (no piece holds a mark).
-/

namespace EventChains.Text

/-- The pieces of a text between the marks in it. -/
def pieces (mark : Char) : List Char → List (List Char)
  | [] => [[]]
  | c :: text =>
      if c = mark then [] :: pieces mark text else (pieces mark text).modifyHead (c :: ·)

theorem pieces_ne_nil (mark : Char) (text : List Char) : pieces mark text ≠ [] := by
  induction text with
  | nil => simp [pieces]
  | cons c text ih =>
      rw [pieces]
      split
      · simp
      · cases h : pieces mark text with
        | nil => exact absurd h ih
        | cons piece rest => simp

/-- With the marks between them, the pieces make the text again. -/
theorem intercalate_pieces (mark : Char) (text : List Char) :
    [mark].intercalate (pieces mark text) = text := by
  induction text with
  | nil => simp [pieces]
  | cons c text ih =>
      rw [pieces]
      split
      next h =>
        rw [List.intercalate_cons_of_ne_nil (pieces_ne_nil mark text), ih, h]
        simp
      next =>
        cases h : pieces mark text with
        | nil => exact absurd h (pieces_ne_nil mark text)
        | cons piece rest =>
            rw [h] at ih
            cases rest with
            | nil => simpa using ih
            | cons next rest => simpa using ih

/-- No piece holds a mark. -/
theorem not_mem_of_mem_pieces {mark : Char} {text piece : List Char}
    (h : piece ∈ pieces mark text) : mark ∉ piece := by
  induction text generalizing piece with
  | nil => simp_all [pieces]
  | cons c text ih =>
      rw [pieces] at h
      split at h
      · rcases List.mem_cons.mp h with rfl | h
        · simp
        · exact ih h
      next hc =>
        cases ht : pieces mark text with
        | nil => simp [ht] at h
        | cons first rest =>
            rw [ht, List.modifyHead_cons, List.mem_cons] at h
            rcases h with rfl | h
            · have := ih (ht ▸ List.mem_cons_self)
              simp [Ne.symm hc, this]
            · exact ih (ht ▸ List.mem_cons_of_mem _ h)

end EventChains.Text
