import EventChains.Json.Reader
import EventChains.Json.Writer
import EventChains.Proofs.Decimal.RoundTrip

/-!
# Numbers in JSON

What is written for a whole number in range or for a finite real number is a number in the grammar
of JSON, is told apart as whole or real, and is read back (`isNumberText_whole`,
`isNumberText_real`).
-/

namespace EventChains.Json

open EventChains.Decimal EventChains.Text

variable {n : Numeral}

theorem isPlainNumeral_leading (h : n.WellFormed) : isPlainNumeral n.leading = true := by
  have hdigits := h.leading
  rcases h.plain with hzero | hhead
  · rw [hzero]
    rfl
  · obtain ⟨c, rest, hleading⟩ := List.exists_cons_of_ne_nil h.ne_nil
    rw [hleading] at hhead hdigits ⊢
    have hc : c ≠ '0' := fun heq => hhead (congrArg some heq)
    simp_all [isPlainNumeral]

/-- A numeral is a number, also behind a sign. -/
theorem isNumber_of_unsigned (h : n.WellFormed) {text : List Char}
    (htext : (if text.head? = some '-' then text.tail else text) = n.text) :
    isNumber text = true := by
  have hpoint : (n.text.dropWhile Char.isDigit).head? = some '.' → n.fraction ≠ [] := by
    intro hhead hfraction
    have hexponent := Numeral.startsWithNo_exponentText n.exponent
    have hdrop := (span_append h.leading fun c hc =>
      (Bool.or_eq_false_iff.1 (hexponent c hc)).1).2
    rw [Numeral.text, hfraction, if_pos rfl, List.append_nil, hdrop] at hhead
    exact absurd (hexponent '.' hhead) (by decide)
  rw [isNumber]
  dsimp only
  rw [htext, Numeral.splitFraction_text h, isPlainNumeral_leading h,
    Numeral.readExponent?_exponentText]
  simp only [Bool.and_eq_true, Bool.or_eq_true, Bool.not_eq_true', Option.isSome_some,
    List.isEmpty_eq_false_iff, decide_eq_false_iff_not, and_true, true_and]
  exact (Classical.em _).symm.imp_right hpoint

/-- A numeral with a point or an exponent is no integer. -/
theorem readDigits?_text (hreal : n.fraction ≠ [] ∨ n.exponent ≠ none) :
    readDigits? n.text = none := by
  rw [readDigits?, if_neg]
  intro hdigits
  rw [Bool.and_eq_true, List.all_eq_true] at hdigits
  rcases hreal with hfraction | hexponent
  · exact absurd (hdigits.2 '.' (by simp [Numeral.text, hfraction])) (by decide)
  · obtain ⟨e, he⟩ := Option.ne_none_iff_exists'.1 hexponent
    exact absurd (hdigits.2 'e' (by simp [Numeral.text, he, Numeral.exponentText])) (by decide)

/-- A numeral has no character that no number has. -/
theorem isNumberChar_text (h : n.WellFormed) : ∀ c ∈ n.text, isNumberChar c = true := by
  have hdigit {c : Char} (hc : c.isDigit = true) : isNumberChar c = true := by
    simp [isNumberChar, hc]
  intro c hc
  rw [Numeral.text, List.mem_append, List.mem_append] at hc
  rcases hc with (hleading | hfraction) | hexponent
  · exact hdigit (h.leading c hleading)
  · split at hfraction
    · exact absurd hfraction List.not_mem_nil
    · rcases List.mem_cons.1 hfraction with rfl | hfraction
      · rfl
      · exact hdigit (h.fraction c hfraction)
  · cases he : n.exponent with
    | none =>
        rw [he] at hexponent
        exact absurd hexponent List.not_mem_nil
    | some e =>
        rw [he, Numeral.exponentText, List.mem_cons, List.mem_cons] at hexponent
        rcases hexponent with rfl | rfl | hdigits
        · rfl
        · split <;> rfl
        · exact hdigit (isDigit_of_mem_digitsOf hdigits)

/-- A text that a value starts with, and that is read as a number. -/
structure IsNumberText (text : List Char) (value : Json) : Prop where
  read : readNumber? Decimal.read? text = some value
  chars : ∀ c ∈ text, isNumberChar c = true
  ne_nil : text ≠ []

theorem sign_cases (isNegative : Prop) [Decidable isNegative] :
    (if isNegative then ['-'] else []) = [] ∨ (if isNegative then ['-'] else []) = ['-'] := by
  split
  · exact Or.inr rfl
  · exact Or.inl rfl

/-- A sign of a negative number and a numeral. -/
theorem isNumber_signed (h : n.WellFormed) {sign : List Char} (hsign : sign = [] ∨ sign = ['-']) :
    isNumber (sign ++ n.text) = true ∧ (∀ c ∈ sign ++ n.text, isNumberChar c = true) ∧
      sign ++ n.text ≠ [] := by
  obtain ⟨c, rest, htext, hdigit⟩ := Numeral.text_eq_cons h
  have hc : c ≠ '-' := by
    rintro rfl
    contradiction
  have hchars := isNumberChar_text h
  rcases hsign with rfl | rfl
  · refine ⟨isNumber_of_unsigned h ?_, hchars, by simp [htext]⟩
    rw [List.nil_append, if_neg]
    rw [htext]
    exact fun heq => hc (Option.some.inj heq)
  · refine ⟨isNumber_of_unsigned h rfl, ?_, List.cons_ne_nil _ _⟩
    intro c' hmem
    rcases List.mem_cons.1 hmem with rfl | hmem
    · rfl
    · exact hchars c' hmem

/-- A numeral without a sign is read as its digits. -/
theorem readInt?_unsigned (h : n.WellFormed) :
    readInt? n.text = (readDigits? n.text).map Int.ofNat := by
  obtain ⟨c, rest, htext, hdigit⟩ := Numeral.text_eq_cons h
  rw [htext, readInt?]
  · rintro _ heq
    cases heq
    contradiction
  · rintro _ heq
    cases heq
    contradiction

/-- Where the digits of a numeral are not all that there is, it is no integer. -/
theorem readInt?_of_none (h : n.WellFormed) {sign : List Char} (hsign : sign = [] ∨ sign = ['-'])
    (hnone : readDigits? n.text = none) : readInt? (sign ++ n.text) = none := by
  rcases hsign with rfl | rfl
  · rw [List.nil_append, readInt?_unsigned h, hnone]
    rfl
  · rw [List.singleton_append, readInt?, hnone]
    rfl

/-- The text of a finite real number: a sign, and a numeral that is no integer. -/
theorem exists_numeral_real {x : Float} (h : x.isFinite = true) :
    ∃ (sign : List Char) (n : Numeral), (sign = [] ∨ sign = ['-']) ∧ n.WellFormed ∧
      readDigits? n.text = none ∧ scalar (.real x) = sign ++ n.text := by
  obtain ⟨n, hwell, htext, -, hreal⟩ :=
    exists_numeral Layout.json (exponent_decimalOf Layout.json h)
  refine ⟨_, n, sign_cases (0x8000000000000000 ≤ x.toBits), hwell, readDigits?_text (hreal rfl), ?_⟩
  rw [scalar, text_of_isFinite Layout.json h, htext]

/-- The text of a finite real number is not read as an integer. -/
theorem readInt?_real {x : Float} (h : x.isFinite = true) : readInt? (scalar (.real x)) = none := by
  obtain ⟨sign, n, hsign, hwell, hdigits, htext⟩ := exists_numeral_real h
  rw [htext]
  exact readInt?_of_none hwell hsign hdigits

/-- A finite real number is read back. -/
theorem isNumberText_real {x : Float} (h : x.isFinite = true) :
    IsNumberText (scalar (.real x)) (.real x) := by
  obtain ⟨sign, n, hsign, hwell, -, htext⟩ := exists_numeral_real h
  obtain ⟨hnumber, hchars, hne⟩ := isNumber_signed hwell hsign
  rw [← htext] at hnumber hchars hne
  refine ⟨?_, hchars, hne⟩
  rw [readNumber?, if_pos hnumber, readInt?_real h]
  dsimp only
  rw [scalar, read?_text Layout.json h]
  rfl

/-- The text of a whole number: its sign and its digits. -/
theorem scalar_whole (i : Int) :
    scalar (.whole i) = (if i < 0 then ['-'] else []) ++ digitsOf i.natAbs := by
  rw [scalar, Int.toString_eq_repr, Int.repr_eq_if]
  split_ifs with hnonneg hneg hneg
  · omega
  · rw [List.nil_append, digitsOf]
    congr 2
    omega
  · rw [String.toList_append, digitsOf]
    congr 3
    omega
  · omega

/-- The digits of a number as a numeral. -/
theorem wellFormed_digitsOf (k : Nat) : Numeral.WellFormed ⟨digitsOf k, [], none⟩ where
  ne_nil := digitsOf_ne_nil k
  leading _ := isDigit_of_mem_digitsOf
  fraction _ h := absurd h List.not_mem_nil
  plain := by
    by_cases h : k = 0
    · exact Or.inl (by rw [h]; rfl)
    · exact Or.inr (head?_digitsOf h)

theorem text_digitsOf (k : Nat) : Numeral.text ⟨digitsOf k, [], none⟩ = digitsOf k := by
  simp [Numeral.text, Numeral.exponentText]

/-- The text of a whole number is read as that number. -/
theorem readInt?_whole (i : Int) : readInt? (scalar (.whole i)) = some i := by
  have hsigned := readInt?_signed i
  rw [scalar_whole]
  split_ifs at hsigned ⊢ with hneg
  · exact hsigned
  · rw [List.nil_append, ← text_digitsOf, readInt?_unsigned (wellFormed_digitsOf _), text_digitsOf,
      readDigits?_digitsOf, Option.map_some, Option.some.injEq]
    exact Int.natAbs_of_nonneg (by omega)

/-- A whole number in range is read back. -/
theorem isNumberText_whole {i : Int} (h : isWhole i = true) :
    IsNumberText (scalar (.whole i)) (.whole i) := by
  obtain ⟨hnumber, hchars, hne⟩ :=
    isNumber_signed (wellFormed_digitsOf i.natAbs) (sign_cases (i < 0))
  rw [text_digitsOf, ← scalar_whole] at hnumber hchars hne
  have hzero : scalar (.whole i) ≠ ['-', '0'] := by
    rw [scalar_whole]
    split_ifs with hneg
    · obtain ⟨c, rest, hdigits, hc⟩ := digitsOf_eq_cons (n := i.natAbs) (by omega)
      rw [hdigits]
      exact fun heq => hc (List.cons.inj (List.cons.inj heq).2).1
    · intro heq
      have hmem : '-' ∈ digitsOf i.natAbs := by
        rw [← List.nil_append (digitsOf i.natAbs), heq]
        exact List.mem_cons_self
      exact absurd (isDigit_of_mem_digitsOf hmem) (by decide)
  refine ⟨?_, hchars, hne⟩
  rw [readNumber?, if_pos hnumber, readInt?_whole]
  dsimp only
  rw [if_pos (by simp [h, hzero])]

end EventChains.Json
