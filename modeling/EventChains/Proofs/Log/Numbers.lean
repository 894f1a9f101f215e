import EventChains.Proofs.Binary64.Difference
import EventChains.Proofs.Json.Number
import EventChains.Proofs.Log.Fields
import EventChains.Proofs.Log.Pairs
import EventChains.Timeline

/-!
# Numbers in trace lines

A number or a truth value that is given as a plain argument, in the text that JSON has for it, comes
back as it is exactly if it is no whole number from `2 ^ 63` on. Such a number fits in 64 bits, but
not with a sign: it comes back as the real number nearest to it, and is exported with another text
(`readLine_of_givesArgument`).
-/

namespace EventChains

namespace Json

/-- A number that a JSON value can hold, or a truth value. -/
def isFigure : Json → Bool
  | .bool _ => true
  | .whole n => isWhole n
  | .real x => x.isFinite
  | _ => false

/-- Whether a whole number fits in 64 bits with a sign; other values need not. -/
def fitsInt64 : Json → Bool
  | .whole n => Text.isInt64 n
  | _ => true

end Json

namespace Log

open EventChains.Text EventChains.Json
open EventChains.Binary64
open EventChains.Decimal (Magnitude)

/-- The pair that gives an argument as plain text. -/
def argumentPair (name : String) (value : Json) : Pair :=
  ⟨"arg.".toList ++ name.toList, value.compactChars, false⟩

/-- A trace line with a plain argument between other pairs, which describe `event`. No later pair
gives the argument again. -/
structure GivesArgument (line lead gap : List Char) (before after : List SpacedPair) (name : String)
    (value : Json) (event : Event) : Prop where
  marked : afterMarker? line =
    some (lead ++ writtenAll (before ++ ⟨argumentPair name value, gap⟩ :: after))
  lead_blanks : Blanks lead
  apart : Apart (before ++ ⟨argumentPair name value, gap⟩ :: after)
  writable : ∀ item ∈ before ++ after, item.pair.Writable
  describes : Describes ((before ++ after).map SpacedPair.pair) event
  name_noEquals : '=' ∉ name.toList
  name_noBlank : ∀ c ∈ name.toList, isBlank c = false
  last : ∀ item ∈ after, item.pair.key ≠ "arg.".toList ++ name.toList

variable {name : String} {value : Json} {event : Event} {pair : Pair} {before after : List Pair}

/-! ## The text of a number -/

theorem compactChars_of_isFigure (figure : value.isFigure = true) :
    value.compactChars = value.scalar := by
  cases value <;> first | rfl | contradiction

theorem pretty_of_isFigure (figure : value.isFigure = true) :
    value.pretty = String.ofList value.scalar := by
  cases value <;> first | rfl | contradiction

/-- The text of a number has no blank and no quotation mark. -/
theorem valueFits_argumentPair (figure : value.isFigure = true) :
    (argumentPair name value).ValueFits := by
  have hplain (h : ∀ c ∈ value.scalar, c ≠ ' ' ∧ c ≠ '"') :
      (argumentPair name value).ValueFits := by
    rw [← compactChars_of_isFigure figure] at h
    exact ⟨fun hmem => (h _ hmem).1 rfl, fun hhead => (h _ (List.mem_of_head? hhead)).2 rfl⟩
  have hnumber (h : IsNumberText value.scalar value) : (argumentPair name value).ValueFits := by
    refine hplain fun c hc => ⟨?_, ?_⟩ <;>
    · rintro rfl
      exact absurd (h.chars _ hc) (by decide)
  cases value with
  | bool b => cases b <;> exact hplain (by simp [scalar])
  | whole n => exact hnumber (isNumberText_whole figure)
  | real x => exact hnumber (isNumberText_real figure)
  | _ => contradiction

/-- A whole number has another text than a real one. -/
theorem pretty_real_ne_whole {x : Float} {n : Int} (hx : (Json.real x).isFigure = true)
    (hn : (Json.whole n).isFigure = true) : (Json.real x).pretty ≠ (Json.whole n).pretty := by
  intro h
  rw [pretty_of_isFigure hx, pretty_of_isFigure hn, String.ofList_inj] at h
  have hread := (isNumberText_real hx).read
  rw [h, (isNumberText_whole hn).read] at hread
  cases hread

/-! ## Reading a number -/

/-- Positive whole numbers of 64 bits have a nearest number. -/
theorem isNearest_ofDigits {n : Nat} (hpos : 0 < n) (hlt : n < 2 ^ 64) :
    IsNearest (Decimal.ofDigits n 0) n := by
  have canonical : Canonical ⟨2 ^ 52, 12, true⟩ := by constructor <;> decide
  have hle : (n * 2 ^ (0 : Int) : ℚ) ≤ Magnitude.worth ⟨2 ^ 52, 12, true⟩ := by
    have hlt : (n : ℚ) < 2 ^ 64 := by exact_mod_cast hlt
    norm_num [Magnitude.worth] at hlt ⊢
    exact hlt.le
  obtain ⟨x, hx, hholds⟩ := exists_holds hpos (by decide) canonical hle
  rw [zpow_zero, mul_one] at hholds
  exact ⟨x, hx, hholds, unpack_ofDigits hx hpos (by rwa [zpow_zero, mul_one])⟩

/-- The text of a whole number is read as an integer if it fits in 64 bits with a sign. -/
theorem readInt64?_whole (n : Int) :
    readInt64? (scalar (.whole n)) = if isInt64 n = true then some n else none := by
  rw [readInt64?, readInt?_whole]
  rfl

/-- The text of a natural number can also be read as a real number. -/
theorem read?_whole (k : Nat) :
    Decimal.read? (scalar (.whole k)) = some (Decimal.ofDigits k 0) := by
  rw [scalar_whole, if_neg (by omega), List.nil_append, Int.natAbs_natCast, ← text_digitsOf,
    Decimal.Numeral.read?_text (wellFormed_digitsOf k)]
  simp [Decimal.Numeral.value]

/-- Text that is no integer is a real argument if it is read as a finite number. -/
theorem argument_of_read? {text : List Char} {x : Float} (hnone : readInt64? text = none)
    (hread : Decimal.read? text = some x) (hfinite : x.isFinite = true) :
    argument text false = .real x := by
  rw [argument, hnone, hread, Option.filter_some_pos (p := Float.isFinite) hfinite]
  rfl

/-- A number comes back as it is if it fits in 64 bits with a sign. -/
theorem argument_of_fitsInt64 (figure : value.isFigure = true) (fits : value.fitsInt64 = true) :
    argument value.compactChars false = value := by
  rw [compactChars_of_isFigure figure]
  cases value with
  | bool b => cases b <;> rfl
  | whole n =>
      have hfits : isInt64 n = true := fits
      rw [argument, readInt64?_whole, if_pos hfits]
      rfl
  | real x =>
      have hnone : readInt64? (scalar (.real x)) = none := by
        rw [readInt64?, readInt?_real figure]
        rfl
      exact argument_of_read? hnone (Decimal.read?_text Decimal.Layout.json figure) figure
  | _ => contradiction

/-- Another number comes back as the real number nearest to it. -/
theorem argument_of_not_fitsInt64 (figure : value.isFigure = true)
    (beyond : value.fitsInt64 = false) :
    ∃ n x, value = .whole n ∧ IsNearest x n ∧ argument value.compactChars false = .real x := by
  rw [compactChars_of_isFigure figure]
  cases value with
  | whole n =>
      have hwhole : isWhole n = true := figure
      have hbeyond : isInt64 n = false := beyond
      have hnone : readInt64? (scalar (.whole n)) = none := by
        rw [readInt64?_whole, if_neg (Bool.eq_false_iff.1 hbeyond)]
      have hrange : 2 ^ 63 ≤ n ∧ n < 2 ^ 64 := by
        simp [isWhole, isInt64] at hwhole hbeyond
        omega
      obtain ⟨k, rfl⟩ := Int.eq_ofNat_of_zero_le (show 0 ≤ n by omega)
      have nearest : IsNearest (Decimal.ofDigits k 0) k := isNearest_ofDigits (by omega) (by omega)
      exact ⟨k, _, rfl, by exact_mod_cast nearest,
        argument_of_read? hnone (read?_whole k) nearest.isFinite⟩
  | _ => contradiction

/-! ## The argument of a line -/

/-- The pairs of arguments are those whose key starts with `arg.`. -/
theorem field?_eq_argument_iff :
    pair.field? = some .argument ↔ ∃ name, pair.key = "arg.".toList ++ name := by
  constructor
  · intro h
    rw [Pair.field?] at h
    split at h
    case h_7 =>
      split at h
      · rename_i name hkey
        exact ⟨name, hkey⟩
      · contradiction
    all_goals contradiction
  · rintro ⟨name, hkey⟩
    rw [Pair.field?, hkey]
    split
    case h_7 => rfl
    all_goals
      rename_i hname
      exact absurd (congrArg String.toList hname) (by simp)

/-- A pair that gives an argument can be written. -/
theorem writable_argumentPair (figure : value.isFigure = true) (hequals : '=' ∉ name.toList)
    (hblank : ∀ c ∈ name.toList, isBlank c = false) : (argumentPair name value).Writable where
  key_ne_nil := List.cons_ne_nil _ _
  key_noEquals := by simpa [argumentPair] using hequals
  key_noBlank := by
    rw [argumentPair, List.forall_mem_append]
    exact ⟨by simp [isBlank], hblank⟩
  value_fits := valueFits_argumentPair figure

/-- A further argument says nothing about the rest of an event. -/
theorem Draft.ofPairs_insert (h : pair.field? = some .argument) :
    ofPairs (before ++ pair :: after) =
      { ofPairs (before ++ after) with
        args := arguments before ++ pair.asArgument :: arguments after } := by
  have hother {field : Field} (hne : Field.argument ≠ field) : pair.field? ≠ some field := by
    rw [h]
    exact fun heq => hne (Option.some.inj heq)
  have hargs : arguments (before ++ pair :: after) =
      arguments before ++ pair.asArgument :: arguments after := by
    rw [arguments, ofField, List.filter_append, List.filter_cons_of_pos (by simpa using h),
      List.map_append, List.map_cons]
    rfl
  simp [ofPairs, number?, last?, hargs, ofField_insert (hother _)]

/-- A further argument among pairs that describe an event is set among its arguments. -/
theorem Describes.insert (described : Describes (before ++ after) event)
    (h : pair.field? = some .argument) :
    Describes (before ++ pair :: after) { event with
      args := Fields.putAll [] (arguments before ++ pair.asArgument :: arguments after) } := by
  rw [← eventOfPairs_eq_ok_iff, eventOfPairs_eq_ok_iff_ofPairs, Draft.event_eq_ok_iff] at described
  obtain ⟨readable, hname, hphase, htime, hscope, hflow, -⟩ := described
  obtain ⟨hbefore, hafter⟩ := List.forall_mem_append.1 readable
  have hpair : pair.Readable := by
    rw [Pair.Readable, h]
    trivial
  rw [← eventOfPairs_eq_ok_iff, eventOfPairs_eq_ok_iff_ofPairs, Draft.event_eq_ok_iff,
    Draft.ofPairs_insert h]
  exact ⟨List.forall_mem_append.2 ⟨hbefore, List.forall_mem_cons.2 ⟨hpair, hafter⟩⟩, hname, hphase,
    htime, hscope, hflow, rfl⟩

/-- The argument that is set last is found, and the others are not changed. -/
theorem get?_insert {given : Json} (described : Describes (before ++ after) event)
    (hpair : pair.asArgument = (name, given)) (hlast : ∀ other ∈ arguments after, other.1 ≠ name)
    (key : String) :
    (Fields.putAll [] (arguments before ++ pair.asArgument :: arguments after)).get? key =
      if key = name then some given else event.args.get? key := by
  rw [hpair, Fields.get?_putAll, List.filter_append]
  split_ifs with hkey
  · have hnone : (arguments after).filter (·.1 = key) = [] :=
      List.filter_eq_nil_iff.2 fun other hmem => by simpa [hkey] using hlast other hmem
    rw [List.filter_cons_of_pos (by simp [hkey]), hnone, List.getLast?_concat]
    rfl
  · rw [described.args_values, List.filter_cons_of_neg (by simpa using Ne.symm hkey),
      ← List.filter_append]
    simp [arguments, ofField]

/-- An argument is given under its name, with its value as it is read. -/
theorem asArgument_argumentPair (name : String) (value : Json) :
    (argumentPair name value).asArgument = (name, argument value.compactChars false) := by
  simp [argumentPair, Pair.asArgument]

/-- A number or a truth value that is given as a plain argument is an argument of the event, and has
its text in a timeline, exactly if it is no whole number or fits in 64 bits with a sign. Otherwise
the argument is the real number that is nearest to it. Nothing else of the event depends on it. -/
theorem readLine_of_givesArgument {line lead gap : List Char} {before after : List SpacedPair}
    (gives : GivesArgument line lead gap before after name value event)
    (figure : value.isFigure = true) :
    ∃ read, readLine line = .ok (some read) ∧ { read with args := event.args } = event ∧
      (∀ other, other ≠ name → read.args.get? other = event.args.get? other) ∧
      (read.args.get? name = some value ↔ value.fitsInt64 = true) ∧
      (((TimelineRecord.ofEvent read).args.get? name).map Json.pretty = some value.pretty ↔
        value.fitsInt64 = true) ∧
      (value.fitsInt64 = false → ∃ n x, value = .whole n ∧ IsNearest x n ∧
        read.args.get? name = some (.real x)) := by
  have hfield : (argumentPair name value).field? = some .argument :=
    field?_eq_argument_iff.2 ⟨name.toList, rfl⟩
  have writable : ∀ item ∈ before ++ ⟨argumentPair name value, gap⟩ :: after,
      item.pair.Writable := by
    obtain ⟨hbefore, hafter⟩ := List.forall_mem_append.1 gives.writable
    exact List.forall_mem_append.2 ⟨hbefore, List.forall_mem_cons.2
      ⟨writable_argumentPair figure gives.name_noEquals gives.name_noBlank, hafter⟩⟩
  have hpairs := (readPairs_writtenAll_iff gives.lead_blanks writable gives.apart.blanks).2
    gives.apart
  rw [List.map_append, List.map_cons] at hpairs
  have described := gives.describes
  rw [List.map_append] at described
  have hlast : ∀ other ∈ arguments (after.map SpacedPair.pair), other.1 ≠ name := by
    intro other hother
    obtain ⟨pair, hpair, rfl⟩ := List.mem_map.1 hother
    obtain ⟨hpair, hargument⟩ := List.mem_filter.1 hpair
    obtain ⟨item, hitem, rfl⟩ := List.mem_map.1 hpair
    obtain ⟨key, hkey⟩ := field?_eq_argument_iff.1 (of_decide_eq_true hargument)
    rintro rfl
    refine gives.last item hitem ?_
    simp [Pair.asArgument, hkey]
  have hget := get?_insert described (asArgument_argumentPair name value) hlast
  refine ⟨_, (readLine_eq_some_iff_describes gives.marked hpairs).2 (described.insert hfield), rfl,
    fun other hne => (hget other).trans (if_neg hne), ?_⟩
  have hname := (hget name).trans (if_pos rfl)
  dsimp only [TimelineRecord.ofEvent]
  rw [hname]
  cases hfits : value.fitsInt64 with
  | true =>
      rw [argument_of_fitsInt64 figure hfits]
      simp
  | false =>
      obtain ⟨n, x, rfl, nearest, hreal⟩ := argument_of_not_fitsInt64 figure hfits
      have htext := pretty_real_ne_whole nearest.isFinite figure
      rw [hreal]
      refine ⟨by simp, by simpa using htext, fun _ => ⟨n, x, rfl, nearest, rfl⟩⟩

/-- An instant, and the same instant with the size as an argument. -/
def cacheLine : List Char :=
  "[trace] ts=1 ph=I name=cache".toList

def sizeLine (size : Int) : List Char :=
  cacheLine ++ " arg.size=".toList ++ (Json.whole size).compactChars

/-- The pairs of the instant. -/
def cachePairs : List SpacedPair :=
  [⟨⟨"ts".toList, ['1'], false⟩, [' ']⟩, ⟨⟨"ph".toList, ['I'], false⟩, [' ']⟩,
    ⟨⟨"name".toList, "cache".toList, false⟩, [' ']⟩]

/-- The greatest number of 64 bits with a sign comes back. -/
theorem readLine_of_givesArgument_size :
    (Json.whole 9223372036854775807).isFigure = true ∧
      ∃ event read, GivesArgument (sizeLine 9223372036854775807) [] [] cachePairs [] "size"
        (.whole 9223372036854775807) event ∧
        readLine (sizeLine 9223372036854775807) = .ok (some read) ∧
        read.args.get? "size" = some (.whole 9223372036854775807) := by
  have figure : (Json.whole 9223372036854775807).isFigure = true := by decide
  have hsome : (eventOf? cacheLine).isSome = true := by decide +kernel
  obtain ⟨event, hevent⟩ := Option.isSome_iff_exists.1 hsome
  have hread := eventOf?_eq_some_iff.1 hevent
  have hmarked : afterMarker? cacheLine = some (cacheLine.drop 8) := by decide
  have hpairs : readPairs (cacheLine.drop 8) = .ok (cachePairs.map SpacedPair.pair) := by
    decide +kernel
  have gives : GivesArgument (sizeLine 9223372036854775807) [] [] cachePairs [] "size"
      (.whole 9223372036854775807) event :=
    { marked := by decide +kernel
      lead_blanks := by decide
      apart := .plain rfl (by decide) (.plain rfl (by decide) (.plain rfl (by decide) (.last rfl)))
      writable := by unfold cachePairs; decide
      describes := (readLine_eq_some_iff_describes hmarked hpairs).1 hread
      name_noEquals := by decide
      name_noBlank := by simp [isBlank]
      last := fun item hitem => by contradiction }
  obtain ⟨read, hline, -, -, hkept, -⟩ := readLine_of_givesArgument gives figure
  exact ⟨figure, event, read, gives, hline, hkept.2 (by decide)⟩

/-- The greatest number of 64 bits comes back as another one, with another text. -/
theorem readLine_greatestSize :
    (Json.whole 18446744073709551615).isFigure = true ∧
      ∃ read, readLine (sizeLine 18446744073709551615) = .ok (some read) ∧
        read.args.get? "size" ≠ some (.whole 18446744073709551615) ∧
        (read.args.get? "size").map Json.pretty = some "1.8446744073709552e+19" := by
  have htext : (eventOf? (sizeLine 18446744073709551615)).map
      (fun read => (read.args.get? "size").map Json.pretty) =
        some (some "1.8446744073709552e+19") := by decide +kernel
  obtain ⟨read, hread, htext⟩ := Option.map_eq_some_iff.1 htext
  refine ⟨by decide, read, eventOf?_eq_some_iff.1 hread, fun hsame => ?_, htext⟩
  have hpretty : (Json.whole 18446744073709551615).pretty ≠ "1.8446744073709552e+19" := by
    decide +kernel
  rw [hsame] at htext
  exact hpretty (Option.some.inj htext)

end Log

end EventChains
