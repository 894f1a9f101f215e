import EventChains.Proofs.Json.Fields
import EventChains.Proofs.Log

/-!
# The fields of a trace line

What a line says in one field depends on its pairs of that field only. The last of them counts, but
each must be readable; arguments come in the order in which their names first occur, each with its
last value (`Describes`). `eventOfPairs_eq_ok_iff` says that an event is read from pairs exactly if
they describe it. So pairs of different fields may change places, and pairs with unknown keys may
come and go (`readLine_of_sameFields`).
-/

namespace EventChains.Log

open EventChains.Text

/-- What a pair can be about. All arguments are one field. -/
inductive Field where
  | required (key : RequiredKey)
  | number (key : NumberKey)
  | argument
  deriving DecidableEq

namespace Pair

variable (pair : Pair)

/-- The value as text. -/
def text : String :=
  String.ofList pair.value

/-- The field of a pair; none if its key is unknown. -/
def field? : Option Field :=
  match String.ofList pair.key with
  | "name" => some (.required .name)
  | "ph" => some (.required .ph)
  | "ts" => some (.required .ts)
  | "pid" => some (.number .pid)
  | "tid" => some (.number .tid)
  | "id" => some (.number .id)
  | _ =>
      match pair.key with
      | 'a' :: 'r' :: 'g' :: '.' :: _ => some .argument
      | _ => none

/-- Whether the value can be read under its key. -/
def Readable : Prop :=
  match pair.field? with
  | some (.required .ph) => (Phase.ofCode? pair.text).isSome
  | some (.required .ts) => (Decimal.read? pair.value).isSome
  | some (.number _) => (readUInt64? pair.value).isSome
  | _ => True

/-- The pair as an argument: its key without `arg.`, and its value. -/
def asArgument : String × Json :=
  (String.ofList (pair.key.drop 4), argument pair.value pair.quoted)

end Pair

/-- The pairs of a field, in order. -/
def ofField (field : Field) (pairs : List Pair) : List Pair :=
  pairs.filter (·.field? = some field)

/-- The pair of a field that counts. -/
def last? (field : Field) (pairs : List Pair) : Option Pair :=
  (ofField field pairs).getLast?

/-- The number under a key. -/
def number? (key : NumberKey) (pairs : List Pair) : Option UInt64 :=
  (last? (.number key) pairs).bind (readUInt64? ·.value)

/-- The arguments that are given, in order. -/
def arguments (pairs : List Pair) : List (String × Json) :=
  (ofField .argument pairs).map Pair.asArgument

/-- The event that pairs describe: each pair can be read, and in each field the last one counts. An
argument stands where its name occurs first. -/
structure Describes (pairs : List Pair) (event : Event) : Prop where
  readable : ∀ pair ∈ pairs, pair.Readable
  name : (last? (.required .name) pairs).map Pair.text = some event.name
  phase : (last? (.required .ph) pairs).bind (Phase.ofCode? ·.text) = some event.phase
  time : (last? (.required .ts) pairs).bind (Decimal.read? ·.value) = some event.time.val
  pid : event.scope.pid = (number? .pid pairs).getD 0
  tid : event.scope.tid = (number? .tid pairs).getD 0
  flow : event.flow = number? .id pairs
  args_names : event.args.map Prod.fst = ((arguments pairs).map Prod.fst).eraseDups
  args_values : ∀ name,
    event.args.get? name = ((arguments pairs).filter (·.1 = name)).getLast?.map Prod.snd

/-- The same pairs in the same order under each key, and among the arguments. Pairs of different
fields may stand in another order, and pairs with unknown keys may be others. -/
def SameFields (pairs others : List Pair) : Prop :=
  ∀ field, ofField field pairs = ofField field others

variable {pairs others : List Pair} {pair : Pair} {event : Event} {draft : Draft}

/-! ## Drafts -/

namespace Draft

/-- What pairs that can be read say. -/
def ofPairs (pairs : List Pair) : Draft where
  name := (last? (.required .name) pairs).map Pair.text
  phase := (last? (.required .ph) pairs).bind (Phase.ofCode? ·.text)
  time := (last? (.required .ts) pairs).bind (Decimal.read? ·.value)
  scope := { pid := (number? .pid pairs).getD 0, tid := (number? .tid pairs).getD 0 }
  flow := number? .id pairs
  args := arguments pairs

/-- Adds what a pair says in a field. -/
def addTo (draft : Draft) (pair : Pair) : Option Field → Except LineFault Draft
  | none => .ok draft
  | some (.required .name) => .ok { draft with name := some pair.text }
  | some (.required .ph) =>
      match Phase.ofCode? pair.text with
      | some phase => .ok { draft with phase := some phase }
      | none => .error (.unknownPhase pair.text)
  | some (.required .ts) =>
      match Decimal.read? pair.value with
      | some time => .ok { draft with time := some time }
      | none => .error (.invalidTime pair.text)
  | some (.number .pid) => do
      let pid ← number .pid pair.value
      .ok { draft with scope := { draft.scope with pid } }
  | some (.number .tid) => do
      let tid ← number .tid pair.value
      .ok { draft with scope := { draft.scope with tid } }
  | some (.number .id) => do
      let flow ← number .id pair.value
      .ok { draft with flow := some flow }
  | some .argument => .ok { draft with args := draft.args ++ [pair.asArgument] }

/-- What a pair says depends on its key through its field only. -/
theorem add_eq (draft : Draft) (pair : Pair) : draft.add pair = draft.addTo pair pair.field? := by
  unfold add
  split
  -- a key that is none of the six is looked at for its start
  case h_7 => grind [Pair.field?, addTo, Pair.asArgument]
  all_goals
    rename_i hkey
    rw [Pair.field?, hkey]
    rfl

end Draft

/-! ## The pairs of a field -/

theorem ofField_concat (field : Field) (pairs : List Pair) (pair : Pair) :
    ofField field (pairs ++ [pair]) =
      if pair.field? = some field then ofField field pairs ++ [pair] else ofField field pairs := by
  rw [ofField, List.filter_append]
  split_ifs with h <;> simp [h, ofField]

@[simp]
theorem last?_concat (field : Field) (pairs : List Pair) (pair : Pair) :
    last? field (pairs ++ [pair]) =
      if pair.field? = some field then some pair else last? field pairs := by
  rw [last?, ofField_concat]
  split_ifs
  · exact List.getLast?_concat
  · rfl

@[simp]
theorem number?_concat (key : NumberKey) (pairs : List Pair) (pair : Pair) :
    number? key (pairs ++ [pair]) =
      if pair.field? = some (.number key) then readUInt64? pair.value else number? key pairs := by
  rw [number?, last?_concat]
  split_ifs <;> rfl

@[simp]
theorem arguments_concat (pairs : List Pair) (pair : Pair) :
    arguments (pairs ++ [pair]) =
      if pair.field? = some .argument then arguments pairs ++ [pair.asArgument]
      else arguments pairs := by
  rw [arguments, ofField_concat]
  split_ifs
  · rw [List.map_append, List.map_singleton, arguments]
  · rfl

/-! ## Reading all pairs -/

/-- One more pair is added exactly if it can be read, and then counts in its field. -/
theorem Draft.add_ofPairs_eq_ok_iff :
    (ofPairs pairs).add pair = .ok draft ↔
      pair.Readable ∧ draft = ofPairs (pairs ++ [pair]) := by
  rw [add_eq, Pair.Readable]
  cases hfield : pair.field? with
  | none => simp [addTo, ofPairs, hfield, eq_comm]
  | some field =>
      cases field with
      | argument => simp [addTo, ofPairs, hfield, eq_comm]
      | number key =>
          cases hn : readUInt64? pair.value with
          | none => cases key <;> simp [addTo, number, hn, bind, Except.bind]
          | some n =>
              cases key <;> simp [addTo, number, ofPairs, hfield, hn, bind, Except.bind, eq_comm]
      | required key =>
          cases key with
          | name => simp [addTo, ofPairs, hfield, eq_comm]
          | ph =>
              cases hphase : Phase.ofCode? pair.text <;>
                simp [addTo, ofPairs, hfield, hphase, eq_comm]
          | ts =>
              cases htime : Decimal.read? pair.value <;>
                simp [addTo, ofPairs, hfield, htime, eq_comm]

/-- Pairs can be read exactly if each of them can. -/
theorem Draft.foldlM_add_eq_ok_iff :
    pairs.foldlM add {} = .ok draft ↔ (∀ pair ∈ pairs, pair.Readable) ∧ draft = ofPairs pairs := by
  induction pairs using List.reverseRecOn generalizing draft with
  | nil =>
      constructor
      · intro h
        exact ⟨fun pair hpair => by contradiction, (Except.ok.inj h).symm⟩
      · rintro ⟨_, rfl⟩
        rfl
  | append_singleton pairs pair ih =>
      rw [List.foldlM_append, bind_eq_ok_iff]
      simp only [List.foldlM_cons, List.foldlM_nil, bind_pure, List.forall_mem_append,
        List.forall_mem_singleton]
      constructor
      · rintro ⟨before, hbefore, hadd⟩
        obtain ⟨hreadable, rfl⟩ := ih.1 hbefore
        obtain ⟨hpair, hdraft⟩ := add_ofPairs_eq_ok_iff.1 hadd
        exact ⟨⟨hreadable, hpair⟩, hdraft⟩
      · rintro ⟨⟨hreadable, hpair⟩, hdraft⟩
        exact ⟨_, ih.2 ⟨hreadable, rfl⟩, add_ofPairs_eq_ok_iff.2 ⟨hpair, hdraft⟩⟩

/-- A value that must be given is there. -/
theorem Draft.require_eq_ok_iff {α : Type} {key : RequiredKey} {given : Option α} {value : α} :
    require key given = .ok value ↔ given = some value := by
  cases given <;> simp [require]

/-- The event of a draft has what the draft gives, and its arguments are set in order. -/
theorem Draft.event_eq_ok_iff :
    draft.event = .ok event ↔
      draft.name = some event.name ∧ draft.phase = some event.phase ∧
        draft.time = some event.time.val ∧ event.scope = draft.scope ∧ event.flow = draft.flow ∧
        event.args = Json.Fields.putAll [] draft.args := by
  unfold Draft.event
  simp only [bind_eq_ok_iff, require_eq_ok_iff, mapError_eq_ok_iff, Event.make_eq_ok_iff]
  constructor
  · rintro ⟨name, hname, phase, hphase, _, htime, _, ⟨time, hne, rfl, rfl⟩, h⟩
    cases h
    exact ⟨hname, hphase, htime, rfl, rfl, rfl⟩
  · rintro ⟨hname, hphase, htime, hscope, hflow, hargs⟩
    refine ⟨_, hname, _, hphase, _, htime, _, ⟨event.time, event.name_ne_empty, rfl, rfl⟩, ?_⟩
    rw [← hscope, ← hflow, ← hargs]

/-- An event is read from pairs exactly if they can be read and their draft gives it. -/
theorem eventOfPairs_eq_ok_iff_ofPairs :
    eventOfPairs pairs = .ok event ↔
      (∀ pair ∈ pairs, pair.Readable) ∧ (Draft.ofPairs pairs).event = .ok event := by
  unfold eventOfPairs
  simp only [bind_eq_ok_iff, Draft.foldlM_add_eq_ok_iff]
  constructor
  · rintro ⟨_, ⟨hreadable, rfl⟩, hevent⟩
    exact ⟨hreadable, hevent⟩
  · rintro ⟨hreadable, hevent⟩
    exact ⟨_, ⟨hreadable, rfl⟩, hevent⟩

/-- An event is read from pairs exactly if they describe it. -/
theorem eventOfPairs_eq_ok_iff : eventOfPairs pairs = .ok event ↔ Describes pairs event := by
  rw [eventOfPairs_eq_ok_iff_ofPairs, Draft.event_eq_ok_iff]
  constructor
  · rintro ⟨readable, name, phase, time, hscope, flow, hargs⟩
    refine ⟨readable, name, phase, time, ?_, ?_, flow, ?_, fun key => ?_⟩
    · rw [hscope]; rfl
    · rw [hscope]; rfl
    · rw [hargs]; exact Json.Fields.keys_putAll _
    · rw [hargs]; exact Json.Fields.get?_putAll _ key
  · intro described
    refine ⟨described.readable, described.name, described.phase, described.time, ?_,
      described.flow, ?_⟩
    · rw [Draft.ofPairs, ← described.pid, ← described.tid]
    · have hnames := described.args_names.trans (Json.Fields.keys_putAll (arguments pairs)).symm
      refine Json.Fields.eq_of_get?_eq hnames ?_ fun name _ => ?_
      · rw [hnames]
        exact Json.Fields.nodup_keys_putAll (arguments pairs)
      · rw [described.args_values name]
        exact (Json.Fields.get?_putAll (arguments pairs) name).symm

/-! ## Lines with the same fields -/

/-- Neighbours of different fields may change places. -/
theorem sameFields_swap {first second : Pair} (h : first.field? ≠ second.field?)
    (before after : List Pair) :
    SameFields (before ++ first :: second :: after) (before ++ second :: first :: after) := by
  intro field
  simp only [ofField, List.filter_append, List.filter_cons, decide_eq_true_eq]
  congr 1
  split_ifs with hfirst hsecond
  · exact absurd (hfirst.trans hsecond.symm) h
  all_goals rfl

/-- A pair has no bearing on the fields that it is not about. -/
theorem ofField_insert {field : Field} (h : pair.field? ≠ some field) (before after : List Pair) :
    ofField field (before ++ pair :: after) = ofField field (before ++ after) := by
  rw [ofField, ofField, List.filter_append, List.filter_append,
    List.filter_cons_of_neg (by simpa using h)]

/-- A pair with an unknown key may come or go. -/
theorem sameFields_insert (h : pair.field? = none) (before after : List Pair) :
    SameFields (before ++ pair :: after) (before ++ after) :=
  fun field => ofField_insert (by simp [h]) before after

/-- Pairs of the same fields say the same. -/
theorem SameFields.ofPairs_eq (same : SameFields pairs others) :
    Draft.ofPairs pairs = Draft.ofPairs others := by
  simp only [Draft.ofPairs, number?, last?, arguments, same _]

/-- A pair that cannot be read is one of some field. -/
theorem forall_readable_iff :
    (∀ pair ∈ pairs, pair.Readable) ↔ ∀ field, ∀ pair ∈ ofField field pairs, pair.Readable := by
  constructor
  · exact fun h field pair hpair => h pair (List.mem_of_mem_filter hpair)
  · intro h pair hpair
    cases hfield : pair.field? with
    | none =>
        rw [Pair.Readable, hfield]
        trivial
    | some field => exact h field pair (List.mem_filter.2 ⟨hpair, decide_eq_true hfield⟩)

/-- Pairs of the same fields describe the same event. -/
theorem SameFields.describes_iff (same : SameFields pairs others) :
    Describes pairs event ↔ Describes others event := by
  rw [← eventOfPairs_eq_ok_iff, ← eventOfPairs_eq_ok_iff, eventOfPairs_eq_ok_iff_ofPairs,
    eventOfPairs_eq_ok_iff_ofPairs, same.ofPairs_eq, forall_readable_iff, forall_readable_iff]
  simp only [same _]

/-- A trace line gives the event that its pairs describe. -/
theorem readLine_eq_some_iff_describes {line text : List Char}
    (hline : afterMarker? line = some text) (hpairs : readPairs text = .ok pairs) :
    readLine line = .ok (some event) ↔ Describes pairs event := by
  rw [readLine_eq_some_iff, ← eventOfPairs_eq_ok_iff]
  constructor
  · rintro ⟨_, _, htext, hread, hevent⟩
    cases hline.symm.trans htext
    cases hpairs.symm.trans hread
    exact hevent
  · exact fun hevent => ⟨text, pairs, hline, hpairs, hevent⟩

/-- The order of the fields of a trace line has no bearing on its event, and neither have pairs with
unknown keys: another line with the same fields gives the same event, or a fault if there is none.
The event is the one that the pairs describe. -/
theorem readLine_of_sameFields {line other text otherText : List Char}
    (hline : afterMarker? line = some text) (hpairs : readPairs text = .ok pairs)
    (hother : afterMarker? other = some otherText) (hothers : readPairs otherText = .ok others)
    (same : SameFields pairs others) :
    (∀ event, readLine line = .ok (some event) ↔ Describes pairs event) ∧
    (∀ event, readLine line = .ok (some event) → readLine other = .ok (some event)) ∧
    ((∀ event, readLine line ≠ .ok (some event)) → ∃ fault, readLine other = .error fault) := by
  have hsame (event : Event) :
      readLine other = .ok (some event) ↔ readLine line = .ok (some event) := by
    rw [readLine_eq_some_iff_describes hline hpairs, readLine_eq_some_iff_describes hother hothers,
      same.describes_iff]
  refine ⟨fun event => readLine_eq_some_iff_describes hline hpairs, fun event => (hsame event).2,
    fun hnone => ?_⟩
  refine exists_fault_of_readLine ?_ fun event => mt (hsame event).1 (hnone event)
  rw [isTraceLine, hother]
  rfl

/-- The pairs of the begin of a load, with two names and an argument given twice. -/
def loadPairs : List Pair :=
  [⟨"ts".toList, ['1'], false⟩, ⟨"ph".toList, ['B'], false⟩, ⟨"name".toList, "idle".toList, false⟩,
    ⟨"arg.k".toList, ['1'], false⟩, ⟨"arg.j".toList, ['x'], false⟩,
    ⟨"name".toList, "load".toList, false⟩, ⟨"arg.k".toList, ['2'], true⟩,
    ⟨"note".toList, ['a'], false⟩]

/-- The same fields in another order, and with another unknown key. -/
def loadPairsMoved : List Pair :=
  [⟨"host".toList, ['b'], true⟩, ⟨"name".toList, "idle".toList, false⟩,
    ⟨"arg.k".toList, ['1'], false⟩, ⟨"name".toList, "load".toList, false⟩,
    ⟨"arg.j".toList, ['x'], false⟩, ⟨"arg.k".toList, ['2'], true⟩, ⟨"ph".toList, ['B'], false⟩,
    ⟨"ts".toList, ['1'], false⟩]

/-- Both lines begin a load; its first argument is the one whose name stands first, with the value
that stands last. -/
theorem readLine_of_sameFields_load :
    let line := "[trace] ts=1 ph=B name=idle arg.k=1 arg.j=x name=load arg.k=\"2\" note=a".toList
    let other := "[trace] host=\"b\"name=idle arg.k=1 name=load arg.j=x arg.k=\"2\"ph=B ts=1".toList
    afterMarker? line = some (line.drop 8) ∧ readPairs (line.drop 8) = .ok loadPairs ∧
      afterMarker? other = some (other.drop 8) ∧ readPairs (other.drop 8) = .ok loadPairsMoved ∧
      SameFields loadPairs loadPairsMoved ∧
      ∃ event, readLine line = .ok (some event) ∧ readLine other = .ok (some event) ∧
        event.name = "load" ∧ event.args.map Prod.fst = ["k", "j"] ∧
        event.args.get? "k" = some (.text "2") := by
  intro line other
  have hline : afterMarker? line = some (line.drop 8) := by decide
  have hpairs : readPairs (line.drop 8) = .ok loadPairs := by decide +kernel
  have hother : afterMarker? other = some (other.drop 8) := by decide
  have hothers : readPairs (other.drop 8) = .ok loadPairsMoved := by decide +kernel
  have same : SameFields loadPairs loadPairsMoved := by
    intro field
    cases field with
    | required key => cases key <;> decide
    | number key => cases key <;> decide
    | argument => decide
  have hsome : (eventOf? line).isSome = true := by decide +kernel
  obtain ⟨event, hevent⟩ := Option.isSome_iff_exists.1 hsome
  have hread := eventOf?_eq_some_iff.1 hevent
  obtain ⟨hdescribes, hmoved, _⟩ := readLine_of_sameFields hline hpairs hother hothers same
  have described : Describes loadPairs event := (hdescribes event).1 hread
  refine ⟨hline, hpairs, hother, hothers, same, event, hread, hmoved event hread, ?_, ?_, ?_⟩
  · exact (Option.some.inj described.name).symm
  · rw [described.args_names]
    decide
  · rw [described.args_values "k"]
    rfl

end EventChains.Log
