import EventChains.Log.Pair
import EventChains.Proofs.CompiledPattern
import EventChains.Proofs.Decimal.Numeral
import EventChains.Proofs.Text.Trim

/-!
# How pairs are written

`Spells` is the grammar of pairs in a line: white space, and then the pairs one after the other,
each with white space after it, as far as that keeps them apart (`Apart`). `readPairs_eq_ok_iff`
says that a text is read as some pairs exactly if it spells them. One text spells no more than one
sequence of pairs, and texts that spell none are refused (`readPairs_accepts`).

What one pair takes of a text is said first, in both directions (`readPair_written`,
`written_of_readPair`).
-/

namespace EventChains.Log

open EventChains.Text
open EventChains.Decimal (StartsWithNo span_append)

/-- A key is not empty and has no blank in it. -/
theorem isKey_iff {key : List Char} :
    isKey key = true ↔ key ≠ [] ∧ ∀ c ∈ key, isBlank c = false := by
  simp [isKey]

namespace Pair

variable (pair : Pair)

/-- The value as it stands in a line. -/
def writtenValue : List Char :=
  if pair.quoted then '"' :: pair.value ++ ['"'] else pair.value

/-- The pair as it stands in a line. -/
def written : List Char :=
  pair.key ++ '=' :: pair.writtenValue

/-- Whether the value can stand in a line. A quoted one may hold anything but a quotation mark; a
plain one may hold anything but a space, and does not start with a quotation mark. -/
def ValueFits : Prop :=
  if pair.quoted then '"' ∉ pair.value else ' ' ∉ pair.value ∧ pair.value.head? ≠ some '"'

/-- A pair that can stand in a line. -/
structure Writable : Prop where
  key_ne_nil : pair.key ≠ []
  key_noEquals : '=' ∉ pair.key
  key_noBlank : ∀ c ∈ pair.key, isBlank c = false
  value_fits : pair.ValueFits

instance : Decidable pair.ValueFits :=
  inferInstanceAs <| Decidable <|
    if pair.quoted then '"' ∉ pair.value else ' ' ∉ pair.value ∧ pair.value.head? ≠ some '"'

instance : Decidable pair.Writable :=
  decidable_of_iff (isKey pair.key = true ∧ '=' ∉ pair.key ∧ pair.ValueFits)
    ⟨fun ⟨hkey, hequals, hvalue⟩ =>
      ⟨(isKey_iff.1 hkey).1, hequals, (isKey_iff.1 hkey).2, hvalue⟩,
      fun h => ⟨isKey_iff.2 ⟨h.key_ne_nil, h.key_noBlank⟩, h.key_noEquals, h.value_fits⟩⟩

/-- Whether the pair ends where `rest` begins: a plain value goes on up to a space. -/
def EndsBefore (rest : List Char) : Prop :=
  pair.quoted = false → StartsWithNo (· ≠ ' ') rest

end Pair

/-- A pair with the white space after it. -/
structure SpacedPair where
  pair : Pair
  gap : List Char

/-- Pairs one after the other, each with the white space after it. -/
def writtenAll : List SpacedPair → List Char
  | [] => []
  | item :: rest => item.pair.written ++ (item.gap ++ writtenAll rest)

/-- Pairs whose white space keeps them apart. After a quoted value any will do, or none; after a
plain one it starts with a space, or the line ends. -/
inductive Apart : List SpacedPair → Prop where
  | nil : Apart []
  | quoted {pair : Pair} {gap : List Char} {rest : List SpacedPair} (hquoted : pair.quoted = true)
      (hgap : Blanks gap) (h : Apart rest) : Apart (⟨pair, gap⟩ :: rest)
  | plain {pair : Pair} {gap : List Char} {rest : List SpacedPair} (hplain : pair.quoted = false)
      (hgap : Blanks gap) (h : Apart rest) : Apart (⟨pair, ' ' :: gap⟩ :: rest)
  | last {pair : Pair} (hplain : pair.quoted = false) : Apart [⟨pair, []⟩]

/-- White space after plain values starts with a space. -/
def SpacesFirst (spaced : List SpacedPair) : Prop :=
  ∀ item ∈ spaced, item.pair.quoted = false → ∀ c ∈ item.gap.head?, c = ' '

instance (spaced : List SpacedPair) : Decidable (SpacesFirst spaced) :=
  decidable_of_iff
    (∀ item ∈ spaced, item.pair.quoted = false → item.gap.head?.all (· = ' ') = true)
    (by simp [SpacesFirst, Option.all_eq_true])

/-- A text spells pairs: it is white space and then the pairs in order, each with white space after
it that keeps it apart from the next one. -/
def Spells (pairs : List Pair) (text : List Char) : Prop :=
  ∃ lead spaced, Blanks lead ∧ (∀ item ∈ spaced, item.pair.Writable) ∧ Apart spaced ∧
    spaced.map SpacedPair.pair = pairs ∧ text = lead ++ writtenAll spaced

variable {pair : Pair} {pairs : List Pair} {key text rest : List Char} {spaced : List SpacedPair}

/-! ## One pair -/

/-- A text falls apart at the first place of a character. -/
theorem cut_iff {mark : Char} {run : List Char} :
    text.takeWhile (· ≠ mark) = run ∧ text.dropWhile (· ≠ mark) = mark :: rest ↔
      mark ∉ run ∧ text = run ++ mark :: rest := by
  constructor
  · rintro ⟨rfl, hdrop⟩
    refine ⟨fun hmem => by simpa using List.mem_takeWhile_imp hmem, ?_⟩
    rw [← hdrop, List.takeWhile_append_dropWhile]
  · rintro ⟨hrun, rfl⟩
    refine span_append (fun c hc => decide_eq_true fun heq => hrun (heq ▸ hc)) fun c hc => ?_
    cases hc
    simp

/-- The character at which dropping stops is the one that was looked for. -/
theorem eq_of_dropWhile_ne {mark c : Char} (h : text.dropWhile (· ≠ mark) = c :: rest) :
    c = mark := by
  have hhead := List.head?_dropWhile_not (· ≠ mark) text
  rw [h] at hhead
  simpa using hhead

/-- A plain value that fits does not start with a quotation mark, also with what follows it. -/
theorem head?_append_ne_quote {value : List Char} (hvalue : value.head? ≠ some '"')
    (hrest : StartsWithNo (· ≠ ' ') rest) : (value ++ rest).head? ≠ some '"' := by
  cases value with
  | nil =>
      intro hhead
      simpa using hrest _ hhead
  | cons c value => exact hvalue

/-- A value is read up to its end. -/
theorem readValue_written (fits : pair.ValueFits) (hends : pair.EndsBefore rest) :
    readValue pair.key (pair.writtenValue ++ rest) = .ok (pair, rest) := by
  obtain ⟨key, value, quoted⟩ := pair
  cases quoted with
  | true =>
      have hquote : '"' ∉ value := fits
      have hcut : _ ∧ (value ++ '"' :: rest).dropWhile (· ≠ '"') = _ := cut_iff.2 ⟨hquote, rfl⟩
      obtain ⟨htake, hdrop⟩ := hcut
      show readValue key ('"' :: (value ++ ['"'] ++ rest)) = _
      rw [List.append_assoc, List.singleton_append, readValue, htake, hdrop]
  | false =>
      obtain ⟨hspace, hquote⟩ : ' ' ∉ value ∧ value.head? ≠ some '"' := fits
      have hvalue : ∀ c ∈ value, decide (c ≠ ' ') = true := fun c hc =>
        decide_eq_true fun heq => hspace (heq ▸ hc)
      obtain ⟨htake, hdrop⟩ := span_append hvalue (hends rfl)
      show readValue key (value ++ rest) = _
      rw [readValue, htake, hdrop]
      intro text htext
      exact head?_append_ne_quote hquote (hends rfl) (congrArg List.head? htext)

/-- What is read as a value is one that stands there up to its end. -/
theorem written_of_readValue (h : readValue key text = .ok (pair, rest)) :
    pair.key = key ∧ pair.ValueFits ∧ pair.EndsBefore rest ∧ text = pair.writtenValue ++ rest := by
  unfold readValue at h
  split at h
  · rename_i text
    split at h
    · contradiction
    · rename_i c rest hdrop
      cases h
      obtain rfl := eq_of_dropWhile_ne hdrop
      obtain ⟨hquote, htext⟩ := cut_iff.1 ⟨rfl, hdrop⟩
      refine ⟨rfl, hquote, fun hplain => by contradiction, ?_⟩
      show '"' :: text = '"' :: (text.takeWhile (· ≠ '"') ++ ['"'] ++ rest)
      rw [List.append_assoc, List.singleton_append, ← htext]
  · rename_i hquote
    cases h
    refine ⟨rfl, ⟨fun hmem => by simpa using List.mem_takeWhile_imp hmem, fun hhead => ?_⟩,
      fun _ => ?_, List.takeWhile_append_dropWhile.symm⟩
    · rw [List.head?_takeWhile] at hhead
      obtain ⟨rest, hrest⟩ :=
        List.head?_eq_some_iff.1 (Option.filter_eq_some_iff.1 hhead).1
      exact hquote rest hrest
    · intro c hc
      obtain ⟨rest, hrest⟩ := List.head?_eq_some_iff.1 hc
      simp [eq_of_dropWhile_ne hrest]

/-- A pair is read up to its end. -/
theorem readPair_written (writable : pair.Writable) (hends : pair.EndsBefore rest) :
    readPair (pair.written ++ rest) = .ok (pair, rest) := by
  have hcut : _ ∧ (pair.key ++ '=' :: (pair.writtenValue ++ rest)).dropWhile (· ≠ '=') = _ :=
    cut_iff.2 ⟨writable.key_noEquals, rfl⟩
  obtain ⟨htake, hdrop⟩ := hcut
  rw [Pair.written, List.append_assoc, List.cons_append, readPair, htake, hdrop]
  dsimp only
  rw [if_pos (isKey_iff.2 ⟨writable.key_ne_nil, writable.key_noBlank⟩),
    readValue_written writable.value_fits hends]

/-- What is read as a pair is one that stands there up to its end. -/
theorem written_of_readPair (h : readPair text = .ok (pair, rest)) :
    pair.Writable ∧ pair.EndsBefore rest ∧ text = pair.written ++ rest := by
  unfold readPair at h
  split at h
  · contradiction
  · rename_i c after hdrop
    obtain rfl := eq_of_dropWhile_ne hdrop
    obtain ⟨hequals, htext⟩ := cut_iff.1 ⟨rfl, hdrop⟩
    dsimp only at h
    split at h
    · rename_i hkey
      obtain ⟨hne, hblank⟩ := isKey_iff.1 hkey
      obtain ⟨hpair, fits, hends, rfl⟩ := written_of_readValue h
      rw [← hpair] at hne hblank hequals htext
      refine ⟨⟨hne, hequals, hblank, fits⟩, hends, ?_⟩
      rw [Pair.written, List.append_assoc, List.cons_append]
      exact htext
    · contradiction

/-! ## All pairs -/

/-- A pair starts with its key, so with no blank. -/
theorem Pair.Writable.exists_head (writable : pair.Writable) (rest : List Char) :
    ∃ c more, pair.written ++ rest = c :: more ∧ isBlank c = false := by
  obtain ⟨c, key, hkey⟩ := List.exists_cons_of_ne_nil writable.key_ne_nil
  have hwritten : pair.written ++ rest = c :: (key ++ '=' :: pair.writtenValue ++ rest) := by
    rw [Pair.written, hkey]
    rfl
  exact ⟨c, _, hwritten, writable.key_noBlank c (hkey ▸ List.mem_cons_self)⟩

/-- White space before a pair is skipped. -/
theorem skipBlanks_append_written {lead : List Char} (hlead : Blanks lead)
    (writable : pair.Writable) :
    skipBlanks (lead ++ (pair.written ++ rest)) = pair.written ++ rest := by
  obtain ⟨c, more, hmore, hc⟩ := writable.exists_head rest
  refine skipBlanks_append hlead fun d hd => ?_
  rw [hmore] at hd
  cases hd
  exact hc

/-- Where not all is white space, a pair is read, and then the pairs after it. -/
theorem readPairs_of_not_blanks (h : ¬ Blanks text) :
    readPairs text = readPair (skipBlanks text) >>= fun (pair, rest) =>
      (readPairs rest).map (pair :: ·) := by
  have hskip : ¬ (skipBlanks text).isEmpty = true := by
    rw [List.isEmpty_iff]
    exact mt skipBlanks_eq_nil_iff.1 h
  rw [readPairs, if_neg hskip]
  split
  · rename_i fault hread
    rw [hread]
    rfl
  · rename_i pair rest hread
    rw [hread]
    rfl

/-- No pairs are read from white space, and from nothing else. -/
theorem readPairs_eq_ok_nil_iff : readPairs text = .ok [] ↔ Blanks text := by
  constructor
  · intro h
    by_contra hblanks
    rw [readPairs_of_not_blanks hblanks] at h
    obtain ⟨⟨pair, rest⟩, _, h⟩ := bind_eq_ok_iff.1 h
    obtain ⟨pairs, _, h⟩ := map_eq_ok_iff.1 h
    contradiction
  · intro h
    rw [readPairs, skipBlanks_eq_nil_iff.2 h]
    rfl

/-- A pair is read first exactly if the text is white space, the pair up to its end, and a text from
which the other pairs are read. -/
theorem readPairs_eq_ok_cons_iff :
    readPairs text = .ok (pair :: pairs) ↔
      ∃ lead rest, Blanks lead ∧ pair.Writable ∧ pair.EndsBefore rest ∧
        text = lead ++ (pair.written ++ rest) ∧ readPairs rest = .ok pairs := by
  constructor
  · intro h
    have hblanks : ¬ Blanks text := by
      intro hblanks
      rw [readPairs_eq_ok_nil_iff.2 hblanks] at h
      cases h
    rw [readPairs_of_not_blanks hblanks] at h
    obtain ⟨⟨first, rest⟩, hread, h⟩ := bind_eq_ok_iff.1 h
    obtain ⟨others, hothers, h⟩ := map_eq_ok_iff.1 h
    cases h
    obtain ⟨lead, hlead, htext⟩ := exists_skipBlanks text
    obtain ⟨writable, hends, hwritten⟩ := written_of_readPair hread
    exact ⟨lead, rest, hlead, writable, hends, hwritten ▸ htext, hothers⟩
  · rintro ⟨lead, rest, hlead, writable, hends, rfl, hrest⟩
    have hskip : skipBlanks (lead ++ (pair.written ++ rest)) = pair.written ++ rest :=
      skipBlanks_append_written hlead writable
    have hblanks : ¬ Blanks (lead ++ (pair.written ++ rest)) := by
      rw [Blanks, ← skipBlanks_eq_nil_iff, hskip]
      simp [Pair.written]
    rw [readPairs_of_not_blanks hblanks, hskip, readPair_written writable hends]
    exact map_eq_ok_iff.2 ⟨pairs, hrest, rfl⟩

/-- After white space a pair is read if it ends where the other pairs are read from. -/
theorem readPairs_append_written {lead : List Char} (hlead : Blanks lead)
    (writable : pair.Writable) :
    readPairs (lead ++ (pair.written ++ rest)) = .ok (pair :: pairs) ↔
      pair.EndsBefore rest ∧ readPairs rest = .ok pairs := by
  rw [readPairs_eq_ok_cons_iff]
  constructor
  · rintro ⟨lead', rest', hlead', _, hends, htext, hpairs⟩
    have hskip := congrArg skipBlanks htext
    rw [skipBlanks_append_written hlead writable,
      skipBlanks_append_written hlead' writable] at hskip
    obtain rfl := List.append_cancel_left hskip
    exact ⟨hends, hpairs⟩
  · rintro ⟨hends, hpairs⟩
    exact ⟨lead, rest, hlead, writable, hends, rfl, hpairs⟩

/-! ## Pairs and the white space after them -/

/-- Pairs stand apart with white space only. -/
theorem Apart.blanks (apart : Apart spaced) : ∀ item ∈ spaced, Blanks item.gap := by
  induction apart with
  | nil => exact fun item hitem => by contradiction
  | quoted _ hgap _ ih => exact List.forall_mem_cons.2 ⟨hgap, ih⟩
  | plain _ hgap _ ih =>
      exact List.forall_mem_cons.2 ⟨List.forall_mem_cons.2 ⟨rfl, hgap⟩, ih⟩
  | last => exact List.forall_mem_singleton.2 fun c hc => by contradiction

/-- Without white space a plain value is the last one. -/
theorem Apart.eq_nil {item : SpacedPair} (apart : Apart (item :: spaced))
    (hplain : item.pair.quoted = false) (hgap : item.gap = []) : spaced = [] := by
  cases apart with
  | quoted hquoted =>
      rw [hquoted] at hplain
      contradiction
  | plain => contradiction
  | last => rfl

theorem Apart.tail {item : SpacedPair} (apart : Apart (item :: spaced)) : Apart spaced := by
  cases apart with
  | quoted _ _ h => exact h
  | plain _ _ h => exact h
  | last => exact .nil

/-- A pair stands apart from the pairs after it if its white space starts with a space where its
value is plain, or else no pairs come after it. -/
theorem Apart.cons {item : SpacedPair} (hgap : Blanks item.gap)
    (hspace : item.pair.quoted = false → ∀ c ∈ item.gap.head?, c = ' ')
    (hlast : item.pair.quoted = false → item.gap = [] → spaced = []) (apart : Apart spaced) :
    Apart (item :: spaced) := by
  obtain ⟨pair, gap⟩ := item
  cases hquoted : pair.quoted with
  | true => exact .quoted hquoted hgap apart
  | false =>
      cases gap with
      | nil =>
          obtain rfl := hlast hquoted rfl
          exact .last hquoted
      | cons c gap =>
          obtain rfl := hspace hquoted c rfl
          exact .plain hquoted (List.forall_mem_cons.1 hgap).2 apart

/-- White space that keeps pairs apart starts with a space after plain values. -/
theorem Apart.spacesFirst (apart : Apart spaced) : SpacesFirst spaced := by
  induction apart with
  | nil => exact fun item hitem => by contradiction
  | quoted hquoted _ _ ih =>
      refine List.forall_mem_cons.2 ⟨fun hplain => ?_, ih⟩
      rw [hquoted] at hplain
      contradiction
  | plain _ _ _ ih =>
      refine List.forall_mem_cons.2 ⟨fun _ c hc => ?_, ih⟩
      cases hc
      rfl
  | last => exact List.forall_mem_singleton.2 fun _ c hc => by contradiction

/-- A pair stands apart from the pairs after it exactly if it ends before them. -/
theorem apart_cons_iff {item : SpacedPair} (writable : ∀ item ∈ spaced, item.pair.Writable)
    (hgap : Blanks item.gap) :
    Apart (item :: spaced) ↔
      item.pair.EndsBefore (item.gap ++ writtenAll spaced) ∧ Apart spaced := by
  constructor
  · intro apart
    refine ⟨fun hplain c hc => ?_, apart.tail⟩
    cases hcase : item.gap with
    | nil =>
        rw [apart.eq_nil hplain hcase, hcase] at hc
        contradiction
    | cons d gap =>
        rw [hcase] at hc
        cases hc
        have hspace : c = ' ' :=
          apart.spacesFirst item List.mem_cons_self hplain c (by rw [hcase]; rfl)
        simp [hspace]
  · rintro ⟨hends, apart⟩
    refine .cons hgap (fun hplain c hc => ?_) (fun hplain hnil => ?_) apart
    · have hstart := hends hplain c (List.mem_head?_append_of_mem_head? hc)
      simpa using hstart
    · -- no space can stand where the next pair begins
      cases spaced with
      | nil => rfl
      | cons next rest =>
          obtain ⟨c, more, hmore, hc⟩ :=
            (writable next List.mem_cons_self).exists_head (next.gap ++ writtenAll rest)
          have hstart := hends hplain
          rw [hnil] at hstart
          obtain rfl : c = ' ' := by simpa using hstart c (congrArg List.head? hmore)
          contradiction

/-- From pairs with white space after them these pairs are read exactly if they stand apart. -/
theorem readPairs_writtenAll_iff {lead : List Char} (hlead : Blanks lead)
    (writable : ∀ item ∈ spaced, item.pair.Writable) (hgaps : ∀ item ∈ spaced, Blanks item.gap) :
    readPairs (lead ++ writtenAll spaced) = .ok (spaced.map SpacedPair.pair) ↔ Apart spaced := by
  induction spaced generalizing lead with
  | nil =>
      rw [writtenAll, List.append_nil]
      exact ⟨fun _ => .nil, fun _ => readPairs_eq_ok_nil_iff.2 hlead⟩
  | cons item rest ih =>
      obtain ⟨hitem, writable⟩ := List.forall_mem_cons.1 writable
      obtain ⟨hgap, hgaps⟩ := List.forall_mem_cons.1 hgaps
      rw [writtenAll, List.map_cons, readPairs_append_written hlead hitem, ih hgap writable hgaps,
        apart_cons_iff writable hgap]

/-- A text is read as pairs exactly if it spells them. -/
theorem readPairs_eq_ok_iff : readPairs text = .ok pairs ↔ Spells pairs text := by
  constructor
  · intro h
    induction pairs generalizing text with
    | nil =>
        exact ⟨text, [], readPairs_eq_ok_nil_iff.1 h, fun item hitem => by contradiction, .nil, rfl,
          (List.append_nil text).symm⟩
    | cons pair pairs ih =>
        obtain ⟨lead, rest, hlead, hpair, hends, rfl, hpairs⟩ := readPairs_eq_ok_cons_iff.1 h
        -- the white space before the next pair is the white space after this one
        obtain ⟨gap, spaced, hgap, writable, apart, rfl, rfl⟩ := ih hpairs
        exact ⟨lead, ⟨pair, gap⟩ :: spaced, hlead, List.forall_mem_cons.2 ⟨hpair, writable⟩,
          (apart_cons_iff writable hgap).2 ⟨hends, apart⟩, rfl, rfl⟩
  · rintro ⟨lead, spaced, hlead, writable, apart, rfl, rfl⟩
    exact (readPairs_writtenAll_iff hlead writable apart.blanks).2 apart

/-- A text is read as pairs exactly if it spells them, it spells no others, and a text that spells
no pairs is refused. -/
theorem readPairs_accepts (text : List Char) (pairs : List Pair) :
    (readPairs text = .ok pairs ↔ Spells pairs text) ∧
    (Spells pairs text → ∀ others, Spells others text → others = pairs) ∧
    ((∃ fault, readPairs text = .error fault) ↔ ∀ others, ¬ Spells others text) := by
  refine ⟨readPairs_eq_ok_iff, fun h others hothers => ?_, ?_⟩
  · rw [← readPairs_eq_ok_iff] at h hothers
    exact Except.ok.inj (hothers.symm.trans h)
  · cases hread : readPairs text with
    | error fault =>
        refine ⟨fun _ others hothers => ?_, fun _ => ⟨fault, rfl⟩⟩
        rw [← readPairs_eq_ok_iff, hread] at hothers
        contradiction
    | ok found =>
        refine ⟨fun ⟨fault, hfault⟩ => by contradiction, fun hnone => ?_⟩
        exact absurd (readPairs_eq_ok_iff.1 hread) (hnone found)

/-- Values may hold equals signs and quotation marks, and after a closing quotation mark nothing
need separate the next key. -/
example :
    readPairs "\ta=\"b c\"d==\"  e=".toList =
      .ok [⟨['a'], "b c".toList, true⟩, ⟨['d'], "=\"".toList, false⟩, ⟨['e'], [], false⟩] := by
  decide +kernel

end EventChains.Log
