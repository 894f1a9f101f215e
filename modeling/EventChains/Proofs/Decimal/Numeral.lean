import EventChains.Decimal.Reader
import EventChains.Proofs.Decimal.Digits
import EventChains.Proofs.Decimal.Interval
import Mathlib.Data.List.TakeWhile
import Mathlib.Tactic.SplitIfs

/-!
# Numerals

A number in text, without its sign, is a `Numeral`: digits, further digits behind a point, and an
exponent. Every layout writes a decimal as a numeral that is worth the same (`exists_numeral`), and
the reader takes a numeral apart again (`readMagnitude?_text`).
-/

namespace EventChains.Decimal

open EventChains.Text

/-- A text does not go on with a character of a kind. -/
def StartsWithNo (p : Char → Bool) (text : List Char) : Prop :=
  ∀ c ∈ text.head?, p c = false

/-- A run of characters of a kind ends where the text does not go on with one. -/
theorem span_append {p : Char → Bool} {run rest : List Char} (hrun : ∀ c ∈ run, p c = true)
    (hrest : StartsWithNo p rest) :
    (run ++ rest).takeWhile p = run ∧ (run ++ rest).dropWhile p = rest := by
  rw [List.takeWhile_append_of_pos hrun, List.dropWhile_append_of_pos hrun]
  cases rest with
  | nil => exact ⟨List.append_nil run, rfl⟩
  | cons c rest =>
      have hc : ¬ p c = true := by simp [hrest c rfl]
      rw [List.takeWhile_cons_of_neg hc, List.dropWhile_cons_of_neg hc, List.append_nil]
      exact ⟨rfl, rfl⟩

/-- A number in text without a sign: digits, further digits behind a point, and an exponent. -/
structure Numeral where
  leading : List Char
  fraction : List Char
  exponent : Option Int

namespace Numeral

/-- The text of an exponent. -/
def exponentText : Option Int → List Char
  | none => []
  | some e => 'e' :: (if e < 0 then '-' else '+') :: digitsOf e.natAbs

/-- The text of a numeral; without further digits it has no point. -/
def text (n : Numeral) : List Char :=
  n.leading ++ (if n.fraction = [] then [] else '.' :: n.fraction) ++ exponentText n.exponent

/-- The decimal that a numeral stands for. -/
def value (n : Numeral) : Decimal :=
  ⟨digitsValue (n.leading ++ n.fraction), n.exponent.getD 0 - n.fraction.length⟩

/-- A numeral has digits, and starts with a zero only where it is the single digit before the
point. -/
structure WellFormed (n : Numeral) : Prop where
  ne_nil : n.leading ≠ []
  leading : ∀ c ∈ n.leading, c.isDigit = true
  fraction : ∀ c ∈ n.fraction, c.isDigit = true
  plain : n.leading = ['0'] ∨ n.leading.head? ≠ some '0'

variable {n : Numeral}

theorem startsWithNo_exponentText (e : Option Int) :
    StartsWithNo (fun c => c.isDigit || c == '.') (exponentText e) := by
  intro c hc
  cases e with
  | none => contradiction
  | some e =>
      cases hc
      decide

/-- The exponent is read back. -/
theorem readExponent?_exponentText (e : Option Int) :
    readExponent? (exponentText e) = some (e.getD 0) := by
  cases e with
  | none => rfl
  | some e => exact readInt?_signed e

/-- A numeral is taken apart as it was put together. -/
theorem splitFraction_text (h : n.WellFormed) :
    splitFraction n.text = (n.leading, n.fraction, exponentText n.exponent) := by
  have hexponent : StartsWithNo Char.isDigit (exponentText n.exponent) := fun c hc =>
    (Bool.or_eq_false_iff.1 (startsWithNo_exponentText _ c hc)).1
  rw [text, splitFraction]
  split_ifs with hfraction
  · obtain ⟨htake, hdrop⟩ := span_append h.leading hexponent
    rw [List.append_nil, htake, hdrop, hfraction]
    cases n.exponent <;> rfl
  · have hpoint : StartsWithNo Char.isDigit ('.' :: n.fraction ++ exponentText n.exponent) := by
      intro c hc
      cases hc
      decide
    obtain ⟨htake, hdrop⟩ := span_append h.leading hpoint
    obtain ⟨htake', hdrop'⟩ := span_append h.fraction hexponent
    rw [List.append_assoc, htake, hdrop]
    show (n.leading, (n.fraction ++ exponentText n.exponent).takeWhile Char.isDigit,
      (n.fraction ++ exponentText n.exponent).dropWhile Char.isDigit) = _
    rw [htake', hdrop']

/-- A numeral is read as its digits and its exponent. -/
theorem readMagnitude?_text (h : n.WellFormed) :
    readMagnitude? n.text = some (ofDigits n.value.digits n.value.exponent) := by
  have hne : (n.leading.isEmpty && n.fraction.isEmpty) = false := by
    rw [List.isEmpty_eq_false_iff.2 h.ne_nil]
    rfl
  rw [readMagnitude?, splitFraction_text h]
  dsimp only
  rw [hne, readExponent?_exponentText]
  rfl

/-- A numeral starts with a digit. -/
theorem text_eq_cons (h : n.WellFormed) : ∃ c rest, n.text = c :: rest ∧ c.isDigit = true := by
  obtain ⟨c, rest, hleading⟩ := List.exists_cons_of_ne_nil h.ne_nil
  refine ⟨c, rest ++ (if n.fraction = [] then [] else '.' :: n.fraction) ++
    exponentText n.exponent, ?_, h.leading c (hleading ▸ List.mem_cons_self)⟩
  rw [text, hleading]
  rfl

theorem readUnsigned?_text (h : n.WellFormed) :
    readUnsigned? n.text = some (ofDigits n.value.digits n.value.exponent) := by
  rw [readUnsigned?, readMagnitude?_text h]
  rfl

/-- A numeral without a sign is read as a magnitude. -/
theorem read?_text (h : n.WellFormed) :
    read? n.text = some (ofDigits n.value.digits n.value.exponent) := by
  obtain ⟨c, rest, hcons, hdigit⟩ := text_eq_cons h
  rw [← readUnsigned?_text h, hcons, read?]
  · rintro _ heq
    cases heq
    contradiction
  · rintro _ heq
    cases heq
    contradiction

end Numeral

/-! ## What a layout writes -/

variable {d : Decimal}

/-- The digits of a decimal other than zero do not start with a zero. -/
theorem head?_digitsOf {n : Nat} (h : n ≠ 0) : (digitsOf n).head? ≠ some '0' := by
  obtain ⟨c, rest, hdigits, hc⟩ := digitsOf_eq_cons h
  rw [hdigits]
  exact fun heq => hc (Option.some.inj heq)

theorem eq_of_exponent {e : Int} (h : e = d.exponent) : (⟨d.digits, e⟩ : Decimal) = d := by
  rw [h]

/-- Zeros behind the point are worth nothing. -/
theorem worth_of_zeros {n : Numeral} (h : digitsValue n.fraction = 0) :
    n.value.worth = digitsValue n.leading * 10 ^ n.exponent.getD 0 := by
  rw [worth, Numeral.value, digitsValue_append, h, Nat.add_zero, zpow_sub₀ (by decide),
    zpow_natCast]
  push_cast
  field_simp

/-- Digits before the point and zeros up to it. -/
theorem exists_numeral_whole (form : Layout) (h : d.digits = 0 → d.exponent = 0)
    (hexponent : 0 ≤ d.exponent) :
    ∃ n : Numeral, n.WellFormed ∧ form.positionalText d = n.text ∧ n.value.worth = d.worth ∧
      (form.keepsPoint = true → n.fraction ≠ []) := by
  refine ⟨⟨digitsOf d.digits ++ zeros d.exponent.toNat,
    if form.keepsPoint then ['0'] else [], none⟩, ⟨?_, ?_, ?_, ?_⟩, ?_, ?_, ?_⟩
  · exact fun hnil => digitsOf_ne_nil _ (List.append_eq_nil_iff.1 hnil).1
  · intro c hc
    exact (List.mem_append.1 hc).elim isDigit_of_mem_digitsOf isDigit_of_mem_zeros
  · intro c hc
    split at hc
    · cases List.mem_singleton.1 hc
      decide
    · contradiction
  · by_cases hzero : d.digits = 0
    · left
      rw [hzero, h hzero]
      rfl
    · right
      rw [List.head?_append_of_ne_nil _ (digitsOf_ne_nil _)]
      exact head?_digitsOf hzero
  · rw [Layout.positionalText, if_pos hexponent, Numeral.text]
    split <;> simp [Numeral.exponentText]
  · have hpower : (10 : ℚ) ^ d.exponent = 10 ^ d.exponent.toNat := by
      rw [← zpow_natCast, Int.toNat_of_nonneg hexponent]
    rw [worth_of_zeros (by split <;> rfl), digitsValue_append, digitsValue_zeros,
      digitsValue_digitsOf, worth, hpower, zeros, List.length_replicate, Option.getD_none,
      zpow_zero]
    push_cast
    rw [add_zero, mul_one, mul_comm]
  · intro hkeeps
    simp [hkeeps]

/-- The point stands between two digits. -/
theorem exists_numeral_between (form : Layout) (h : d.digits ≠ 0) (hexponent : d.exponent < 0)
    (hplaces : (-d.exponent).toNat < (digitsOf d.digits).length) :
    ∃ n : Numeral, n.WellFormed ∧ form.positionalText d = n.text ∧ n.value = d ∧
      n.fraction ≠ [] := by
  have hpoint :
      (digitsOf d.digits).drop ((digitsOf d.digits).length - (-d.exponent).toNat) ≠ [] := by
    rw [← List.length_pos_iff, List.length_drop]
    omega
  refine ⟨⟨(digitsOf d.digits).take ((digitsOf d.digits).length - (-d.exponent).toNat),
    (digitsOf d.digits).drop ((digitsOf d.digits).length - (-d.exponent).toNat), none⟩,
    ⟨?_, ?_, ?_, ?_⟩, ?_, ?_, hpoint⟩
  · rw [← List.length_pos_iff, List.length_take]
    omega
  · exact fun c hc => isDigit_of_mem_digitsOf (List.mem_of_mem_take hc)
  · exact fun c hc => isDigit_of_mem_digitsOf (List.mem_of_mem_drop hc)
  · right
    rw [List.head?_take, if_neg (by omega)]
    exact head?_digitsOf h
  · rw [Layout.positionalText, if_neg (by omega), if_pos hplaces, Numeral.text, if_neg hpoint]
    exact (List.append_nil _).symm
  · rw [Numeral.value, List.take_append_drop, digitsValue_digitsOf, List.length_drop]
    exact eq_of_exponent (by rw [Option.getD_none]; omega)

/-- The point and zeros stand before all digits. -/
theorem exists_numeral_small (form : Layout) (hexponent : d.exponent < 0)
    (hplaces : (digitsOf d.digits).length ≤ (-d.exponent).toNat) :
    ∃ n : Numeral, n.WellFormed ∧ form.positionalText d = n.text ∧ n.value = d ∧
      n.fraction ≠ [] := by
  have hpoint :
      zeros ((-d.exponent).toNat - (digitsOf d.digits).length) ++ digitsOf d.digits ≠ [] :=
    fun hnil => digitsOf_ne_nil _ (List.append_eq_nil_iff.1 hnil).2
  refine ⟨⟨['0'], zeros ((-d.exponent).toNat - (digitsOf d.digits).length) ++ digitsOf d.digits,
    none⟩, ⟨List.cons_ne_nil _ _, ?_, ?_, Or.inl rfl⟩, ?_, ?_, hpoint⟩
  · intro c hc
    cases List.mem_singleton.1 hc
    decide
  · intro c hc
    exact (List.mem_append.1 hc).elim isDigit_of_mem_zeros isDigit_of_mem_digitsOf
  · rw [Layout.positionalText, if_neg (by omega), if_neg (by omega), Numeral.text, if_neg hpoint]
    exact (List.append_nil _).symm
  · rw [Numeral.value, digitsValue_append ['0'], digitsValue_append, digitsValue_zeros,
      digitsValue_digitsOf, List.length_append, zeros, List.length_replicate]
    rw [show digitsValue ['0'] = 0 from rfl, Nat.mul_zero, Nat.mul_zero, Nat.zero_add, Nat.zero_add]
    exact eq_of_exponent (by rw [Option.getD_none]; omega)

/-- The point stands behind the first digit. -/
theorem exists_numeral_scientific (d : Decimal) :
    ∃ n : Numeral, n.WellFormed ∧
      Layout.scientificText (digitsOf d.digits) (d.exponent + (digitsOf d.digits).length - 1) =
        n.text ∧ n.value = d ∧ n.exponent ≠ none := by
  obtain ⟨c, rest, hdigits⟩ := List.exists_cons_of_ne_nil (digitsOf_ne_nil d.digits)
  have hdigit : ∀ c' ∈ c :: rest, c'.isDigit = true := by
    rw [← hdigits]
    exact fun _ => isDigit_of_mem_digitsOf
  refine ⟨⟨[c], rest, some (d.exponent + (digitsOf d.digits).length - 1)⟩,
    ⟨by simp, ?_, ?_, ?_⟩, ?_, ?_, by simp⟩
  · intro c' hc
    cases List.mem_singleton.1 hc
    exact hdigit c List.mem_cons_self
  · exact fun c' hc => hdigit c' (List.mem_cons_of_mem c hc)
  · by_cases hc : c = '0'
    · exact Or.inl (by rw [hc])
    · exact Or.inr fun hhead => hc (Option.some.inj hhead)
  · rw [Layout.scientificText, hdigits]
    cases rest <;> rfl
  · have hvalue := digitsValue_digitsOf d.digits
    rw [hdigits] at hvalue
    rw [Numeral.value, List.singleton_append, hvalue, hdigits]
    refine eq_of_exponent ?_
    show d.exponent + (c :: rest).length - 1 - rest.length = d.exponent
    rw [List.length_cons]
    omega

/-- Every layout writes a decimal as a numeral of the same worth. -/
theorem exists_numeral (form : Layout) (h : d.digits = 0 → d.exponent = 0) :
    ∃ n : Numeral, n.WellFormed ∧ form.decimalText d = n.text ∧ n.value.worth = d.worth ∧
      (form.keepsPoint = true → n.fraction ≠ [] ∨ n.exponent ≠ none) := by
  unfold Layout.decimalText
  dsimp only
  split
  · by_cases hexponent : 0 ≤ d.exponent
    · obtain ⟨n, hwell, htext, hworth, hpoint⟩ := exists_numeral_whole form h hexponent
      exact ⟨n, hwell, htext, hworth, fun hkeeps => Or.inl (hpoint hkeeps)⟩
    · have hdigits : d.digits ≠ 0 := fun hzero => hexponent (h hzero).ge
      have hexponent : d.exponent < 0 := by omega
      rcases Nat.lt_or_ge (-d.exponent).toNat (digitsOf d.digits).length with hplaces | hplaces
      · obtain ⟨n, hwell, htext, hvalue, hpoint⟩ :=
          exists_numeral_between form hdigits hexponent hplaces
        exact ⟨n, hwell, htext, by rw [hvalue], fun _ => Or.inl hpoint⟩
      · obtain ⟨n, hwell, htext, hvalue, hpoint⟩ :=
          exists_numeral_small form hexponent hplaces
        exact ⟨n, hwell, htext, by rw [hvalue], fun _ => Or.inl hpoint⟩
  · obtain ⟨n, hwell, htext, hvalue, hexponent⟩ := exists_numeral_scientific d
    exact ⟨n, hwell, htext, by rw [hvalue], fun _ => Or.inr hexponent⟩

end EventChains.Decimal
