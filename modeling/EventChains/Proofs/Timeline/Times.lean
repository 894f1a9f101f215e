import EventChains.Proofs.Binary64.Overflow
import EventChains.Proofs.Matching.Chains
import EventChains.Proofs.Matching.Growth
import EventChains.Proofs.Time.Worth
import EventChains.Proofs.Timeline.RoundTrip
import EventChains.Proofs.Trace.Part

/-!
# Times in a timeline

Every item of a timeline that is no name has the time of an event or of an end of a chain in
microseconds, rounded to the nearest number (`HasTime`). A time in milliseconds may be so great that
no number of microseconds is near enough: the item has `null` then. So all items have a number
exactly if no event is as late as that (`text_times`).
-/

namespace EventChains

open Binary64 Matching Float.Model

namespace Timestamp

theorem unpack_thousand :
    (1000 : Float).toModel.unpack = .finite .positive (1000 * 2 ^ 43) (-43) (by decide) := by
  rfl

/-- A time in microseconds is a zero, or the number nearest to the exact time, unless that is too
great for all numbers. -/
theorem microseconds_cases (t : Timestamp) :
    (t.worth = 0 ∧ ∃ sign, (t.val * 1000).toModel.unpack = .zero sign) ∨
    (t.worth * 1000 < overflow ∧ IsNearest (t.val * 1000) (t.worth * 1000)) ∨
    (overflow ≤ t.worth * 1000 ∧ (t.val * 1000).toModel.unpack = .infinity .positive) := by
  have hunpack : (t.val * 1000).toModel.unpack = (Float.Model.pack (UnpackedFloat.mul .binary64
      t.val.toModel.unpack (.finite .positive (1000 * 2 ^ 43) (-43) (by decide)))).unpack := by
    rw [← unpack_thousand]
    rfl
  rw [hunpack]
  obtain ⟨hzero, sign, h⟩ | ⟨canonical, h⟩ := t.magnitude_cases
  · refine Or.inl ⟨hzero, sign, ?_⟩
    rw [h]
    cases sign <;> rfl
  · have hpos := canonical.pos
    have hdigits : 2 ^ 52 ≤ t.magnitude.m * (1000 * 2 ^ 43) := by omega
    have hthousand : ((1000 * 2 ^ 43 : Nat) : ℚ) * 2 ^ (-43 : Int) = 1000 := by norm_num
    have hproduct : (t.magnitude.m * 2 ^ t.magnitude.q * ((1000 * 2 ^ 43 : Nat) * 2 ^ (-43 : Int)) :
        ℚ) = t.worth * 1000 := by
      rw [hthousand, worth, Decimal.Magnitude.worth]
    rw [h]
    rcases lt_or_ge (t.worth * 1000) overflow with hlt | hge
    · have hwhole : t.worth * 1000 = (t.magnitude.m * 1000 : Nat) * 2 ^ t.magnitude.q := by
        rw [worth, Decimal.Magnitude.worth]
        push_cast
        ring
      rw [hwhole] at hlt
      obtain ⟨x, hx, hholds⟩ := exists_holds_of_lt (by omega) canonical.least hlt
      rw [← hwhole] at hlt hholds
      refine Or.inr (Or.inl ⟨hlt, x, hx, hholds, ?_⟩)
      rw [hunpack, h]
      rw [← hproduct] at hholds
      exact unpack_of_eq hx (mul_finite hx hholds hdigits)
    · refine Or.inr (Or.inr ⟨hge, unpack_mul_of_overflow hdigits ?_⟩)
      rw [hproduct]
      exact hge

/-- A time is finite in microseconds exactly if it is not too great before it is rounded. -/
theorem isFinite_microseconds_iff (t : Timestamp) :
    (TimelineRecord.microseconds t).isFinite = true ↔ t.worth * 1000 < overflow := by
  obtain ⟨hzero, sign, h⟩ | ⟨hlt, h⟩ | ⟨hge, h⟩ := t.microseconds_cases
  · rw [hzero, zero_mul]
    exact ⟨fun _ => overflow_pos, fun _ => isFinite_of_zero h⟩
  · exact ⟨fun _ => hlt, fun _ => h.isFinite⟩
  · have hinfinite : (TimelineRecord.microseconds t).isFinite = false := by
      show (t.val * 1000).toModel.unpack.isFinite = false
      rw [h]
      rfl
    rw [hinfinite]
    exact ⟨fun hfinite => by contradiction, fun hlt => absurd hge hlt.not_ge⟩

end Timestamp

namespace Timeline

open Json

/-- The times of a timeline in order: those of the events, and then those of the ends of each
chain. -/
def times (trace : Trace) (chains : List Chain) : List Timestamp :=
  trace.events.map (·.time) ++ chains.flatMap fun chain => [chain.start, chain.finish]

/-- An item has a time in microseconds: a zero, or the number nearest to the exact time. Where that
is too great for all numbers, it has `null`. -/
inductive HasTime (item : Json) (time : Timestamp) : Prop where
  | zero {x : Float} {sign : UnpackedFloat.Sign} (h : time.worth = 0)
      (hx : x.toModel.unpack = .zero sign) (hitem : item.field? "ts" = some (.real x))
  | nearest {x : Float} (h : time.worth * 1000 < overflow)
      (hx : IsNearest x (time.worth * 1000)) (hitem : item.field? "ts" = some (.real x))
  | none (h : overflow ≤ time.worth * 1000) (hitem : item.field? "ts" = some .null)

variable {trace : Trace} {chains : List Chain} {track : ChainTrack} {shown : List TimelineRecord}
variable {record : TimelineRecord} {time : Timestamp}

/-! ## Times of items -/

/-- The item of a record has the time of the record. -/
theorem hasTime_itemOf (h : record.time = some (TimelineRecord.microseconds time)) :
    HasTime (itemOf record) time := by
  obtain ⟨-, hitem, -⟩ := field?_itemOf record
  rw [h, Option.map_some, readBack] at hitem
  have hfinite := time.isFinite_microseconds_iff
  obtain ⟨hzero, sign, hx⟩ | ⟨hlt, hx⟩ | ⟨hge, -⟩ := time.microseconds_cases
  · have hx' : (TimelineRecord.microseconds time).isFinite = true := isFinite_of_zero hx
    rw [if_pos hx'] at hitem
    exact .zero hzero hx hitem
  · rw [if_pos (hfinite.2 hlt)] at hitem
    exact .nearest hlt hx hitem
  · rw [if_neg (mt hfinite.1 hge.not_gt)] at hitem
    exact .none hge hitem

/-- An item has a finite number for its time exactly if that is not too great for all numbers. -/
theorem HasTime.finite_iff {item : Json} (has : HasTime item time) :
    (∃ x, item.field? "ts" = some (.real x) ∧ x.isFinite = true) ↔
      time.worth * 1000 < overflow := by
  cases has with
  | @zero x sign h hx hitem =>
      rw [h, zero_mul]
      exact ⟨fun _ => overflow_pos, fun _ => ⟨x, hitem, isFinite_of_zero hx⟩⟩
  | nearest h hx hitem => exact ⟨fun _ => h, fun _ => ⟨_, hitem, hx.isFinite⟩⟩
  | none h hitem =>
      constructor
      · rintro ⟨x, hreal, -⟩
        rw [hitem] at hreal
        cases hreal
      · exact fun hlt => absurd h hlt.not_ge

theorem finite_iff_of_hasTime {items : List Json} {times : List Timestamp}
    (h : List.Forall₂ HasTime items times) :
    (∀ item ∈ items, ∃ x, item.field? "ts" = some (.real x) ∧ x.isFinite = true) ↔
      ∀ time ∈ times, time.worth * 1000 < overflow := by
  induction h with
  | nil => simp
  | cons has _ ih => rw [List.forall_mem_cons, List.forall_mem_cons, has.finite_iff, ih]

/-! ## Times of a timeline -/

/-- Records of something in time have the times of the timeline. -/
theorem times_records (h : records trace chains track = .ok shown) :
    List.Forall₂ (fun record time => record.time = some (TimelineRecord.microseconds time))
      (shown.filter isMoment) (times trace chains) := by
  rw [filter_isMoment_records h]
  have hchains : List.Forall₂ (· = ·) chains chains := List.forall₂_same.2 fun _ _ => rfl
  refine List.rel_append ?_ (List.rel_flatMap hchains ?_)
  · rw [List.forall₂_map_left_iff, List.forall₂_map_right_iff, List.forall₂_same]
    exact fun event _ => rfl
  · rintro chain _ rfl
    exact .cons rfl (.cons rfl .nil)

/-- A chain that has been found starts and ends at the times of events. -/
theorem times_of_found {earlier : Trace} {chain : Chain} (found : Found earlier chain)
    (grows : earlier.Grows trace) : chain.start ∈ trace.events.map (·.time) ∧
      chain.finish ∈ trace.events.map (·.time) := by
  obtain ⟨entries, hne, hsublist, hchain⟩ := found.exists_entries
  have hsubset : ∀ entry ∈ entries, entry.event.time ∈ trace.events.map (·.time) := by
    intro entry hentry
    have hmem := (hsublist.trans grows.order).subset hentry
    exact List.mem_map_of_mem (List.mem_map_of_mem hmem)
  have hstart : chain.start = (entries.head hne).event.time := by
    rw [hchain, Chain.ofEntries, List.head?_eq_some_head hne]
    rfl
  have hfinish : chain.finish = (entries.getLast hne).event.time := by
    rw [hchain, Chain.ofEntries, List.getLast?_eq_some_getLast hne]
    rfl
  rw [hstart, hfinish]
  exact ⟨hsubset _ (List.head_mem hne), hsubset _ (List.getLast_mem hne)⟩

/-- All times of a timeline are times of events. -/
theorem forall_times_iff {p : Timestamp → Prop}
    (hfound : ∀ chain ∈ chains, ∃ earlier : Trace, earlier.Grows trace ∧ Found earlier chain) :
    (∀ time ∈ times trace chains, p time) ↔ ∀ event ∈ trace.events, p event.time := by
  rw [times, List.forall_mem_append, List.forall_mem_map]
  refine ⟨And.left, fun h => ⟨h, fun time htime => ?_⟩⟩
  obtain ⟨chain, hchain, hends⟩ := List.mem_flatMap.1 htime
  obtain ⟨earlier, grows, found⟩ := hfound chain hchain
  obtain ⟨hstart, hfinish⟩ := times_of_found found grows
  rw [← List.forall_mem_map (f := Event.time)] at h
  rcases List.mem_pair.1 hends with rfl | rfl
  · exact h _ hstart
  · exact h _ hfinish

/-- Every item of a timeline that is no name has the time of an event or of an end of a chain in
microseconds, in order. All these times are finite numbers exactly if no event of the trace is so
late that its time is too great for all numbers. The chains have been found on the trace, or before
its latest events came. -/
theorem text_times {text : String}
    (hargs : ∀ event ∈ trace.events, areKeptFields event.args = true)
    (hfound : ∀ chain ∈ chains, ∃ earlier : Trace, earlier.Grows trace ∧ Found earlier chain)
    (htext : Timeline.text trace chains track = .ok text) :
    ∃ items, Json.decode? text =
        some (.object [("traceEvents", .list items), ("displayTimeUnit", .text "ms")]) ∧
      List.Forall₂ HasTime (items.filter isMomentItem) (times trace chains) ∧
      ((∀ item ∈ items, isMomentItem item = true →
          ∃ x, item.field? "ts" = some (.real x) ∧ x.isFinite = true) ↔
        ∀ event ∈ trace.events, event.time.worth * 1000 < overflow) := by
  obtain ⟨shown, hshown, rfl⟩ := text_eq_ok_iff.1 htext
  have htimes : List.Forall₂ HasTime ((shown.map itemOf).filter isMomentItem)
      (times trace chains) := by
    rw [filter_isMomentItem_map, List.forall₂_map_left_iff]
    exact (times_records hshown).imp fun record time => hasTime_itemOf
  refine ⟨shown.map itemOf, decode?_document (areKeptFields_args hshown hargs), htimes, ?_⟩
  have hall := (finite_iff_of_hasTime htimes).trans (forall_times_iff hfound)
  simpa only [List.mem_filter, and_imp] using hall

/-- A load that has been found is shown with finite times. -/
theorem text_times_load :
    let chain := chainOfPath .load "loads" [0, 1, 2]
    (∃ earlier : Trace, earlier.Grows .load ∧ Found earlier chain) ∧
      (∀ event ∈ Trace.load.events, areKeptFields event.args = true) ∧
      ∃ text items, Timeline.text .load [chain] {} = .ok text ∧
        Json.decode? text =
          some (.object [("traceEvents", .list items), ("displayTimeUnit", .text "ms")]) ∧
        (items.filter isMomentItem).length = 5 ∧
        ∀ item ∈ items, isMomentItem item = true →
          ∃ x, item.field? "ts" = some (.real x) ∧ x.isFinite = true := by
  intro chain
  have hmem : chain ∈ find .load .load "loads" .noRepeat := List.mem_map_of_mem (load_mem_find _)
  have hfound : ∃ earlier : Trace, earlier.Grows .load ∧ Found earlier chain :=
    ⟨.load, .refl _, found_of_mem_find hmem⟩
  have hargs : ∀ event ∈ Trace.load.events, areKeptFields event.args = true := by decide +kernel
  have htimes : ∀ event ∈ Trace.load.events, event.time = .zero := by decide +kernel
  obtain ⟨text, htext⟩ : ∃ text, Timeline.text .load [chain] {} = .ok text :=
    ⟨_, text_eq_ok_iff.2 ⟨_, records_eq_ok_iff.2 ⟨Or.inr (by decide +kernel), rfl⟩, rfl⟩⟩
  obtain ⟨items, hdecode, hhas, hfinite⟩ :=
    text_times hargs (List.forall_mem_singleton.2 hfound) htext
  refine ⟨hfound, hargs, text, items, htext, hdecode, ?_, hfinite.2 fun event hevent => ?_⟩
  · rw [hhas.length_eq]
    decide +kernel
  · rw [htimes event hevent, Timestamp.worth_zero, zero_mul]
    exact overflow_pos

/-- The latest time, `1.7976931348623157e308`. -/
def latest : Timestamp :=
  ⟨.ofBits 0x7FEFFFFFFFFFFFFF, by decide +kernel, by decide +kernel⟩

/-- A load that begins then has `null` for its time. -/
theorem text_latest :
    ∃ text item, Timeline.text (Trace.loadsAt [latest]) [] {} = .ok text ∧
      Json.decode? text =
        some (.object [("traceEvents", .list [item]), ("displayTimeUnit", .text "ms")]) ∧
      isMomentItem item = true ∧ item.field? "ts" = some .null := by
  have hnull : (Json.real (TimelineRecord.microseconds latest)).readBack = .null := by
    have hinfinite : ¬ (TimelineRecord.microseconds latest).isFinite = true := by decide +kernel
    rw [readBack, if_neg hinfinite]
  obtain ⟨event, hevents, htime, hargs⟩ : ∃ event, (Trace.loadsAt [latest]).events = [event] ∧
      event.time = latest ∧ event.args = [] :=
    ⟨_, Trace.events_ofEvents (List.pairwise_singleton _ _), rfl, rfl⟩
  have hrecords : records (Trace.loadsAt [latest]) [] {} = .ok [.ofEvent event] :=
    records_eq_ok_iff.2 ⟨Or.inl rfl, by rw [hevents]; rfl⟩
  have hdecode : Json.decode? (document [.ofEvent event]).pretty = _ :=
    decode?_document (List.forall_mem_singleton.2 (by rw [TimelineRecord.ofEvent, hargs]; rfl))
  obtain ⟨-, hitem, -⟩ := field?_itemOf (.ofEvent event)
  refine ⟨_, itemOf (.ofEvent event), text_eq_ok_iff.2 ⟨_, hrecords, rfl⟩, hdecode, ?_, ?_⟩
  · rw [isMomentItem_itemOf]
    exact isMoment_ofEvent event
  · rw [hitem, TimelineRecord.ofEvent, htime, Option.map_some, hnull]

end Timeline

end EventChains
