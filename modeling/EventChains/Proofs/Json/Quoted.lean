import EventChains.Json.Reader
import EventChains.Json.Writer
import Mathlib.Tactic.SplitIfs

/-!
# Quoted texts

What is written between quotation marks is read back, whatever characters the text has and whatever
follows it (`readQuoted?_quote`).
-/

namespace EventChains.Json

open EventChains.Text

variable {rest chars after : List Char}

/-- A code point in four digits is read as its character, also where another code point follows. -/
theorem readQuoted?_of_code {a b c d char : Char} {code : Nat}
    (hcode : hexNumber? [a, b, c, d] = some code) (hchar : charOfCode? code = some char)
    (hrest : readQuoted? rest = some (chars, after)) :
    readQuoted? ('\\' :: 'u' :: a :: b :: c :: d :: rest) = some (char :: chars, after) := by
  rw [readQuoted?.eq_def]
  split
  · contradiction
  · simp_all
  · rename_i h
    simp only [List.cons.injEq, true_and] at h
    obtain ⟨rfl, rfl, rfl, rfl, rfl⟩ := h
    simp [hcode, hchar, hrest]
  · rename_i h
    simp only [List.cons.injEq, true_and] at h
    obtain ⟨rfl, rfl, rfl, rfl, rfl⟩ := h
    simp [hcode, hchar, hrest]
  · rename_i _ hnot h
    simp only [List.cons.injEq, true_and] at h
    exact absurd h.2.symm (hnot _ _ _ _ _ h.1.symm)
  · rename_i hescape h
    simp only [List.cons.injEq] at h
    exact absurd h.2.symm (hescape _ _ h.1.symm)

/-- A control character is written by its code point. -/
theorem code_of_control {c : Char} (h : c.toNat < 0x20) :
    hexNumber? ['0', '0', hexDigit (c.toNat / 16), hexDigit c.toNat] = some c.toNat := by
  have hdigits : ∀ n < 0x20, hexNumber? ['0', '0', hexDigit (n / 16), hexDigit n] = some n := by
    decide
  exact hdigits _ h

theorem charOfCode?_toNat (c : Char) : charOfCode? c.toNat = some c :=
  dif_pos c.valid

/-- The character after a backslash is read as the one that it stands for. -/
theorem readQuoted?_of_short {e c : Char} (hshort : shortEscape? e = some c)
    (hrest : readQuoted? rest = some (chars, after)) :
    readQuoted? ('\\' :: e :: rest) = some (c :: chars, after) := by
  have hcode : e ≠ 'u' := by
    rintro rfl
    contradiction
  simp [readQuoted?, hcode, hshort, hrest]

/-- A character that needs no escape is read as itself. -/
theorem readQuoted?_of_plain {c : Char} (hquote : c ≠ '"') (hstroke : c ≠ '\\')
    (hcontrol : ¬ c.toNat < 0x20) (hrest : readQuoted? rest = some (chars, after)) :
    readQuoted? (c :: rest) = some (c :: chars, after) := by
  rw [readQuoted?.eq_def]
  split
  all_goals simp_all

/-- A character is read back from what is written for it. -/
theorem readQuoted?_escapeChar (c : Char) (hrest : readQuoted? rest = some (chars, after)) :
    readQuoted? (escapeChar c ++ rest) = some (c :: chars, after) := by
  unfold escapeChar
  split_ifs with hquote hstroke hback htab hline hform hreturn hcontrol
  · subst c
    exact readQuoted?_of_short rfl hrest
  · subst c
    exact readQuoted?_of_short rfl hrest
  · subst c
    exact readQuoted?_of_short rfl hrest
  · subst c
    exact readQuoted?_of_short rfl hrest
  · subst c
    exact readQuoted?_of_short rfl hrest
  · subst c
    exact readQuoted?_of_short rfl hrest
  · subst c
    exact readQuoted?_of_short rfl hrest
  · exact readQuoted?_of_code (code_of_control hcontrol) (charOfCode?_toNat c) hrest
  · exact readQuoted?_of_plain hquote hstroke hcontrol hrest

/-- A quoted text is read back, whatever follows it. -/
theorem readQuoted?_quote (text : String) (rest : List Char) :
    ∃ quoted, quote text = '"' :: quoted ∧
      readQuoted? (quoted ++ rest) = some (text.toList, rest) := by
  refine ⟨text.toList.flatMap escapeChar ++ ['"'], rfl, ?_⟩
  induction text.toList with
  | nil => rfl
  | cons c chars ih =>
      rw [List.flatMap_cons, List.append_assoc, List.append_assoc, ← List.append_assoc _ ['"']]
      exact readQuoted?_escapeChar c ih

end EventChains.Json
