import EventChains.Proofs.Json.Number
import EventChains.Proofs.Json.Quoted

/-!
# Reading what is written

The text of a value is read back as the value, with all its fields in order, where the value is one
that JSON text keeps (`decode?_pretty`): whole numbers are in range and real ones finite. Text is
read with one step for each container, item and field, and every step has a character of its own.
A number that is not finite is written like `null`, and read as that (`readBack`).
-/

namespace EventChains.Json

open EventChains.Decimal EventChains.Text

mutual

/-- A value that JSON text keeps: its whole numbers are in range, and its real numbers finite. -/
def isKept : Json → Bool
  | .whole n => isWhole n
  | .real x => x.isFinite
  | .list items => areKept items
  | .object fields => areKeptFields fields
  | _ => true

/-- Items that JSON text keeps. -/
def areKept : List Json → Bool
  | [] => true
  | item :: rest => item.isKept && areKept rest

/-- Fields that JSON text keeps. -/
def areKeptFields : List (String × Json) → Bool
  | [] => true
  | field :: rest => field.2.isKept && areKeptFields rest

end

/-! ## Blanks -/

variable {n : Nat} {c : Char} {text rest next after chars : List Char} {value item : Json}
variable {items : List Json} {fields : List (String × Json)}

theorem skipSpace_cons (h : isSpace c = false) : skipSpace (c :: text) = c :: text :=
  List.dropWhile_cons_of_neg (by simp [h])

/-- The start of a line is skipped. -/
theorem skipSpace_newline (depth : Nat) (text : List Char) :
    skipSpace (newline depth ++ text) = skipSpace text := by
  refine List.dropWhile_append_of_pos fun c hc => ?_
  rcases List.mem_cons.1 hc with rfl | hblank
  · rfl
  · rw [List.eq_of_mem_replicate hblank]
    rfl

/-- What is read does not depend on blanks in front of it. -/
theorem readValue?_skipSpace (h : skipSpace text = skipSpace next) :
    readValue? Decimal.read? n text = readValue? Decimal.read? n next := by
  rw [readValue?.eq_def, readValue?.eq_def _ n next, h]

theorem readItems?_skipSpace (h : skipSpace text = skipSpace next) :
    readItems? Decimal.read? n text = readItems? Decimal.read? n next := by
  rw [readItems?.eq_def, readItems?.eq_def _ n next]
  cases n with
  | zero => rfl
  | succ n => simp only [readValue?_skipSpace h]

theorem readFields?_skipSpace (h : skipSpace text = skipSpace next) :
    readFields? Decimal.read? n text = readFields? Decimal.read? n next := by
  rw [readFields?.eq_def, readFields?.eq_def _ n next, h]

/-! ## One step -/

theorem readValue?_list {depth : Nat} (hfirst : text = c :: next) (hspace : isSpace c = false)
    (hc : c ≠ ']') (hitems : readItems? Decimal.read? n text = some (items, after)) :
    readValue? Decimal.read? (n + 1) ('[' :: (newline depth ++ text)) =
      some (.list items, after) := by
  subst hfirst
  rw [readValue?.eq_def, skipSpace_cons rfl]
  simp only [skipSpace_newline, skipSpace_cons hspace]
  split
  · rename_i heq
    exact absurd (List.cons.inj heq).1 hc
  · rw [hitems]
    rfl

theorem readValue?_object {depth : Nat} (hfirst : text = '"' :: next)
    (hfields : readFields? Decimal.read? n text = some (fields, after)) :
    readValue? Decimal.read? (n + 1) ('\x7b' :: (newline depth ++ text)) =
      some (.object fields, after) := by
  subst hfirst
  rw [readValue?.eq_def, skipSpace_cons rfl]
  simp [skipSpace_newline, skipSpace_cons (c := '"') rfl, hfields]

theorem readItems?_last (hitem : readValue? Decimal.read? n text = some (item, rest))
    (hend : skipSpace rest = ']' :: after) :
    readItems? Decimal.read? (n + 1) text = some ([item], after) := by
  rw [readItems?.eq_def]
  simp [hitem, hend]

theorem readItems?_more (hitem : readValue? Decimal.read? n text = some (item, rest))
    (hcomma : skipSpace rest = ',' :: next)
    (hitems : readItems? Decimal.read? n next = some (items, after)) :
    readItems? Decimal.read? (n + 1) text = some (item :: items, after) := by
  rw [readItems?.eq_def]
  simp [hitem, hcomma, hitems]

/-- A key and its value are the last field where the object ends behind them. -/
theorem readFields?_last (key : String)
    (hvalue : readValue? Decimal.read? n next = some (value, rest))
    (hend : skipSpace rest = '\x7d' :: after) :
    readFields? Decimal.read? (n + 1) (quote key ++ ':' :: ' ' :: next) =
      some ([(key, value)], after) := by
  obtain ⟨quoted, hquote, hkey⟩ := readQuoted?_quote key (':' :: ' ' :: next)
  have hblank : readValue? Decimal.read? n (' ' :: next) = some (value, rest) :=
    (readValue?_skipSpace (List.dropWhile_cons_of_pos rfl)).trans hvalue
  rw [hquote, List.cons_append, readFields?.eq_def, skipSpace_cons rfl]
  simp [hkey, skipSpace_cons (c := ':') rfl, hblank, hend]

/-- A key and its value are a field before others where a comma follows them. -/
theorem readFields?_more (key : String)
    (hvalue : readValue? Decimal.read? n next = some (value, rest))
    (hcomma : skipSpace rest = ',' :: text)
    (hfields : readFields? Decimal.read? n text = some (fields, after)) :
    readFields? Decimal.read? (n + 1) (quote key ++ ':' :: ' ' :: next) =
      some ((key, value) :: fields, after) := by
  obtain ⟨quoted, hquote, hkey⟩ := readQuoted?_quote key (':' :: ' ' :: next)
  have hblank : readValue? Decimal.read? n (' ' :: next) = some (value, rest) :=
    (readValue?_skipSpace (List.dropWhile_cons_of_pos rfl)).trans hvalue
  rw [hquote, List.cons_append, readFields?.eq_def, skipSpace_cons rfl]
  simp [hkey, skipSpace_cons (c := ':') rfl, hblank, hcomma, hfields]

theorem readValue?_text (s : String) (rest : List Char) :
    readValue? Decimal.read? n (quote s ++ rest) = some (.text s, rest) := by
  obtain ⟨quoted, hquote, hread⟩ := readQuoted?_quote s rest
  rw [hquote, List.cons_append, readValue?.eq_def, skipSpace_cons rfl]
  simp [hread]

theorem readWord?_self (word : String) (value : Json) (rest : List Char) :
    readWord? word value (word.toList ++ rest) = some (value, rest) := by
  rw [readWord?, if_pos (List.isPrefixOf_iff_prefix.2 (List.prefix_append _ _)),
    ← String.length_toList, List.drop_left]

/-- A word does not start a text that starts with another character. -/
theorem readWord?_eq_none {word : String} {letter : Char} {more : List Char}
    (hword : word.toList = letter :: more) (hne : letter ≠ c) :
    readWord? word value (c :: text) = none := by
  rw [readWord?, hword, if_neg]
  rw [List.isPrefixOf_cons_cons, Bool.and_eq_true, beq_iff_eq]
  exact fun h => hne h.1

theorem readValue?_null (rest : List Char) :
    readValue? Decimal.read? n (scalar .null ++ rest) = some (.null, rest) := by
  have hnull := readWord?_self "null" .null rest
  rw [readValue?.eq_def, scalar]
  simp_all [skipSpace_cons (c := 'n') rfl]

theorem readValue?_bool (b : Bool) (rest : List Char) :
    readValue? Decimal.read? n (scalar (.bool b) ++ rest) = some (.bool b, rest) := by
  rw [readValue?.eq_def, scalar]
  cases b with
  | true =>
      have htrue := readWord?_self "true" (.bool true) rest
      have hnull : readWord? "null" .null ("true".toList ++ rest) = none :=
        readWord?_eq_none rfl (by decide)
      simp_all [skipSpace_cons (c := 't') rfl]
  | false =>
      have hfalse := readWord?_self "false" (.bool false) rest
      have hnull : readWord? "null" .null ("false".toList ++ rest) = none :=
        readWord?_eq_none rfl (by decide)
      have htrue : readWord? "true" (.bool true) ("false".toList ++ rest) = none :=
        readWord?_eq_none rfl (by decide)
      simp_all [skipSpace_cons (c := 'f') rfl]

theorem readValue?_noItems (rest : List Char) :
    readValue? Decimal.read? (n + 1) (scalar (.list []) ++ rest) = some (.list [], rest) := by
  rw [readValue?.eq_def, scalar]
  simp [skipSpace_cons (c := '[') rfl, skipSpace_cons (c := ']') rfl]

theorem readValue?_noFields (rest : List Char) :
    readValue? Decimal.read? (n + 1) (scalar (.object []) ++ rest) = some (.object [], rest) := by
  rw [readValue?.eq_def, scalar]
  simp [skipSpace_cons (c := '\x7b') rfl, skipSpace_cons (c := '\x7d') rfl]

/-- A character of a number is no blank and no bracket. -/
theorem IsNumberText.eq_cons (h : IsNumberText text value) :
    ∃ c more, text = c :: more ∧ isSpace c = false ∧ c ≠ ']' := by
  obtain ⟨c, more, htext⟩ := List.exists_cons_of_ne_nil h.ne_nil
  have hc : isNumberChar c = true := h.chars c (htext ▸ List.mem_cons_self)
  refine ⟨c, more, htext, ?_, ?_⟩
  · by_contra hblank
    simp only [isSpace, Bool.not_eq_false, Bool.or_eq_true, beq_iff_eq] at hblank
    rcases hblank with ((rfl | rfl) | rfl) | rfl <;> contradiction
  · rintro rfl
    contradiction

/-- A number is read up to the first character that no number has. -/
theorem readValue?_number {number : List Char} (h : IsNumberText number value)
    (hrest : StartsWithNo isNumberChar rest) :
    readValue? Decimal.read? n (number ++ rest) = some (value, rest) := by
  obtain ⟨htake, hdrop⟩ := span_append h.chars hrest
  obtain ⟨c, more, hnumber, hspace, -⟩ := h.eq_cons
  have hc : isNumberChar c = true := h.chars c (hnumber ▸ List.mem_cons_self)
  have hskip : skipSpace (number ++ rest) = number ++ rest := by
    rw [hnumber]
    exact skipSpace_cons hspace
  have hword {word : String} {value : Json} {letter : Char} {more : List Char}
      (hword : word.toList = letter :: more) (hletter : isNumberChar letter = false) :
      readWord? word value (number ++ rest) = none := by
    rw [hnumber]
    refine readWord?_eq_none hword fun heq => ?_
    rw [heq, hc] at hletter
    contradiction
  -- The number starts with none of the characters that open a string, a list or an object.
  have hother : ∀ opening next, isNumberChar opening = false →
      ¬number ++ rest = opening :: next := by
    rintro opening next hopening heq
    rw [hnumber] at heq
    cases heq
    rw [hc] at hopening
    contradiction
  rw [readValue?.eq_def, hskip]
  split
  · rename_i heq
    exact absurd heq (hother _ _ rfl)
  · rename_i heq
    exact absurd heq (hother _ _ rfl)
  · rename_i heq
    exact absurd heq (hother _ _ rfl)
  · rw [hword rfl rfl, hword rfl rfl, hword rfl rfl, htake, hdrop, h.read]
    rfl

/-! ## Whole values -/

/-- No value starts with a blank or with a closing bracket. -/
theorem prettyChars_eq_cons (depth : Nat) (h : value.isKept = true) :
    ∃ c more, prettyChars depth value = c :: more ∧ isSpace c = false ∧ c ≠ ']' := by
  cases value with
  | null => exact ⟨_, _, rfl, rfl, by decide⟩
  | bool b => cases b <;> exact ⟨_, _, rfl, rfl, by decide⟩
  | whole i => exact (isNumberText_whole h).eq_cons
  | real x => exact (isNumberText_real h).eq_cons
  | text s => exact ⟨_, _, rfl, rfl, by decide⟩
  | list items => cases items <;> exact ⟨_, _, rfl, rfl, by decide⟩
  | object fields => cases fields <;> exact ⟨_, _, rfl, rfl, by decide⟩

theorem length_newline (depth : Nat) : (newline depth).length = 2 * depth + 1 := by
  rw [newline, List.length_cons, List.length_replicate]

theorem startsWithNo_newline (depth : Nat) : StartsWithNo isNumberChar (newline depth ++ rest) := by
  rintro c hc
  cases hc
  rfl

theorem startsWithNo_comma : StartsWithNo isNumberChar (',' :: rest) := by
  rintro c hc
  cases hc
  rfl

mutual

/-- A value is read back, whatever follows it, unless that goes on with a number. -/
theorem readValue?_pretty : ∀ (value : Json) (depth n : Nat) (rest : List Char),
    value.isKept = true → (prettyChars depth value).length ≤ n → StartsWithNo isNumberChar rest →
      readValue? Decimal.read? n (prettyChars depth value ++ rest) = some (value, rest)
  | .null, _, _, rest, _, _, _ => readValue?_null rest
  | .bool b, _, _, rest, _, _, _ => readValue?_bool b rest
  | .whole _, _, _, _, hkept, _, hrest => readValue?_number (isNumberText_whole hkept) hrest
  | .real _, _, _, _, hkept, _, hrest => readValue?_number (isNumberText_real hkept) hrest
  | .text s, _, _, rest, _, _, _ => readValue?_text s rest
  | .list [], _, n + 1, rest, _, _, _ => readValue?_noItems rest
  | .object [], _, n + 1, rest, _, _, _ => readValue?_noFields rest
  | .list (item :: items), depth, n + 1, rest, hkept, hlength, _ => by
      have hitem : item.isKept = true := (Bool.and_eq_true_iff.1 hkept).1
      obtain ⟨c, more, hfirst, hspace, hc⟩ := prettyChars_eq_cons (depth + 1) hitem
      -- the opening bracket pays for this step, so the rest of the text is enough for the items
      have hitems := readItems?_pretty item items (depth + 1) depth n rest hkept (by
        simp only [prettyChars, List.length_append, List.length_cons, length_newline] at hlength
        rw [List.length_append]
        omega)
      rw [prettyChars]
      simp only [List.cons_append, List.append_assoc, List.nil_append]
      exact readValue?_list (congrArg (· ++ _) hfirst) hspace hc hitems
  | .object ((key, value) :: fields), depth, n + 1, rest, hkept, hlength, _ => by
      obtain ⟨quoted, hquote, -⟩ := readQuoted?_quote key []
      have hfields := readFields?_pretty key value fields (depth + 1) depth n rest hkept (by
        simp only [prettyChars, List.length_append, List.length_cons, length_newline] at hlength
        rw [List.length_append]
        omega)
      rw [prettyChars]
      simp only [List.cons_append, List.append_assoc, List.nil_append]
      exact readValue?_object (congrArg (· ++ _) hquote) hfields
  termination_by structural _ _ n => n

/-- Items are read back up to the closing bracket. -/
theorem readItems?_pretty : ∀ (item : Json) (items : List Json) (depth outer n : Nat)
    (rest : List Char), areKept (item :: items) = true →
      (prettyChars depth item ++ prettyItems depth items).length < n →
        readItems? Decimal.read? n (prettyChars depth item ++ (prettyItems depth items ++
          (newline outer ++ ']' :: rest))) = some (item :: items, rest)
  | item, [], depth, outer, n + 1, rest, hkept, hlength => by
      have hitem : item.isKept = true := (Bool.and_eq_true_iff.1 hkept).1
      have hread := readValue?_pretty item depth n (newline outer ++ ']' :: rest) hitem (by
        rw [List.length_append] at hlength
        omega) (startsWithNo_newline outer)
      refine readItems?_last hread ?_
      rw [skipSpace_newline, skipSpace_cons rfl]
  | item, item' :: items, depth, outer, n + 1, rest, hkept, hlength => by
      have hkept := Bool.and_eq_true_iff.1 hkept
      have hread := readValue?_pretty item depth n (prettyItems depth (item' :: items) ++
        (newline outer ++ ']' :: rest)) hkept.1 (by
          rw [List.length_append] at hlength
          omega) startsWithNo_comma
      have hitems := readItems?_pretty item' items depth outer n rest hkept.2 (by
        simp only [prettyItems, List.length_append, List.length_cons, length_newline] at hlength ⊢
        omega)
      have hcomma : skipSpace (prettyItems depth (item' :: items) ++
          (newline outer ++ ']' :: rest)) =
          ',' :: (newline depth ++ (prettyChars depth item' ++ (prettyItems depth items ++
            (newline outer ++ ']' :: rest)))) := by
        rw [prettyItems]
        simp only [List.cons_append, List.append_assoc]
        exact skipSpace_cons rfl
      exact readItems?_more hread hcomma
        ((readItems?_skipSpace (skipSpace_newline _ _)).trans hitems)
  termination_by structural _ _ _ _ n => n

/-- Fields are read back up to the closing brace. -/
theorem readFields?_pretty : ∀ (key : String) (value : Json) (fields : List (String × Json))
    (depth outer n : Nat) (rest : List Char), areKeptFields ((key, value) :: fields) = true →
      (prettyChars depth value ++ prettyFields depth fields).length < n →
        readFields? Decimal.read? n (quote key ++ ':' :: ' ' :: (prettyChars depth value ++
          (prettyFields depth fields ++ (newline outer ++ '\x7d' :: rest)))) =
            some ((key, value) :: fields, rest)
  | key, value, [], depth, outer, n + 1, rest, hkept, hlength => by
      have hvalue : value.isKept = true := (Bool.and_eq_true_iff.1 hkept).1
      have hread := readValue?_pretty value depth n (newline outer ++ '\x7d' :: rest) hvalue (by
        rw [List.length_append] at hlength
        omega) (startsWithNo_newline outer)
      refine readFields?_last key hread ?_
      rw [skipSpace_newline, skipSpace_cons rfl]
  | key, value, (key', value') :: fields, depth, outer, n + 1, rest, hkept, hlength => by
      have hkept := Bool.and_eq_true_iff.1 hkept
      have hread := readValue?_pretty value depth n
        (prettyFields depth ((key', value') :: fields) ++ (newline outer ++ '\x7d' :: rest))
        hkept.1 (by
          rw [List.length_append] at hlength
          omega) startsWithNo_comma
      have hfields := readFields?_pretty key' value' fields depth outer n rest hkept.2 (by
        simp only [prettyFields, List.length_append, List.length_cons, length_newline] at hlength ⊢
        omega)
      have hcomma : skipSpace (prettyFields depth ((key', value') :: fields) ++
          (newline outer ++ '\x7d' :: rest)) =
          ',' :: (newline depth ++ (quote key' ++ ':' :: ' ' :: (prettyChars depth value' ++
            (prettyFields depth fields ++ (newline outer ++ '\x7d' :: rest))))) := by
        rw [prettyFields]
        simp only [List.cons_append, List.append_assoc]
        exact skipSpace_cons rfl
      exact readFields?_more key hread hcomma
        ((readFields?_skipSpace (skipSpace_newline _ _)).trans hfields)
  termination_by structural _ _ _ _ _ n => n

end

/-- The text of a value that JSON text keeps is decoded as the value. -/
theorem decode?_pretty (h : value.isKept = true) : decode? value.pretty = some value := by
  have hread := readValue?_pretty value 0 (2 * (prettyChars 0 value).length + 1) [] h (by omega)
    (fun c hc => by contradiction)
  rw [List.append_nil] at hread
  rw [decode?, readWith?, pretty, String.toList_ofList, hread]
  rfl

/-! ## Numbers that are not finite -/

/-- The value that is read where a value is written: `null` for a number that is not finite. -/
def readBack : Json → Json
  | .real x => if x.isFinite then .real x else .null
  | value => value

/-- An object with the values of its fields as they are read. -/
def readBackFields : Json → Json
  | .object fields => .object (fields.map fun field => (field.1, field.2.readBack))
  | value => value

theorem isKept_readBack_real (x : Float) : (Json.real x).readBack.isKept = true := by
  rw [readBack]
  split
  · assumption
  · rfl

theorem isKept_readBack (h : value.isKept = true) : value.readBack.isKept = true := by
  cases value with
  | real x => exact isKept_readBack_real x
  | _ => exact h

/-- A value and what is read for it have the same text. -/
theorem prettyChars_readBack (depth : Nat) (value : Json) :
    prettyChars depth value.readBack = prettyChars depth value := by
  cases value with
  | real x =>
      rw [readBack]
      split
      · rfl
      · rename_i h
        have hnull : scalar (.real x) = scalar .null := by
          rw [scalar, scalar, Layout.text, if_neg h]
          rfl
        exact hnull.symm
  | _ => rfl

theorem prettyFields_readBack (depth : Nat) (fields : List (String × Json)) :
    prettyFields depth (fields.map fun field => (field.1, field.2.readBack)) =
      prettyFields depth fields := by
  induction fields with
  | nil => rfl
  | cons field rest ih =>
      rw [List.map_cons, prettyFields, prettyFields, ih, prettyChars_readBack]

theorem prettyChars_readBackFields (depth : Nat) (value : Json) :
    prettyChars depth value.readBackFields = prettyChars depth value := by
  cases value with
  | object fields =>
      cases fields with
      | nil => rfl
      | cons field rest =>
          rw [readBackFields, List.map_cons, prettyChars, prettyChars, prettyChars_readBack,
            prettyFields_readBack]
  | _ => rfl

theorem prettyItems_readBackFields (depth : Nat) (items : List Json) :
    prettyItems depth (items.map readBackFields) = prettyItems depth items := by
  induction items with
  | nil => rfl
  | cons item rest ih =>
      rw [List.map_cons, prettyItems, prettyItems, ih, prettyChars_readBackFields]

theorem prettyChars_list_readBackFields (depth : Nat) (items : List Json) :
    prettyChars depth (.list (items.map readBackFields)) = prettyChars depth (.list items) := by
  cases items with
  | nil => rfl
  | cons item rest =>
      rw [List.map_cons, prettyChars, prettyChars, prettyItems_readBackFields,
        prettyChars_readBackFields]

theorem get?_readBack (fields : List (String × Json)) (key : String) :
    Fields.get? (fields.map fun field => (field.1, field.2.readBack)) key =
      (Fields.get? fields key).map readBack := by
  induction fields with
  | nil => rfl
  | cons field rest ih => grind [Fields.get?]

theorem areKept_map {α : Type} {f : α → Json} {source : List α}
    (h : ∀ a ∈ source, (f a).isKept = true) : areKept (source.map f) = true := by
  induction source with
  | nil => rfl
  | cons a rest ih =>
      obtain ⟨ha, hrest⟩ := List.forall_mem_cons.1 h
      rw [List.map_cons, areKept, ha, ih hrest]
      rfl

end EventChains.Json
