import EventChains.Proofs.Json.RoundTrip
import EventChains.Proofs.Timeline.Records
import EventChains.Proofs.Trace.Names

/-!
# Reading a timeline back

The text of a timeline without chains is a JSON document that holds all of its trace: one item for
each event, with everything that the event says, and one for each name of a process or thread
(`text_recovers`). Only a time that is beyond all numbers when it is in microseconds gets lost: its
item has `null` for it.
-/

namespace EventChains

namespace Json

/-- A field of an object. -/
def field? : Json → String → Option Json
  | .object fields, key => Fields.get? fields key
  | _, _ => none

/-- The keys of an object. -/
def keys : Json → List String
  | .object fields => fields.map (·.1)
  | _ => []

/-- A text in a field. -/
def textField? (item : Json) (key : String) : Option String :=
  match item.field? key with
  | some (.text s) => some s
  | _ => none

/-- An unsigned 64-bit number in a field. -/
def wordField? (item : Json) (key : String) : Option UInt64 :=
  match item.field? key with
  | some (.whole n) => some (UInt64.ofNat n.toNat)
  | _ => none

theorem isWhole_word (n : UInt64) : isWhole n.toNat = true := by
  have := n.toNat_lt
  rw [isWhole, Bool.and_eq_true, decide_eq_true_eq, decide_eq_true_eq]
  omega

theorem field?_readBackFields (value : Json) (key : String) :
    value.readBackFields.field? key = (value.field? key).map readBack := by
  cases value with
  | object fields => exact get?_readBack fields key
  | _ => rfl

end Json

namespace Timeline

open Json

variable {trace : Trace} {track : ChainTrack} {shown : List TimelineRecord}
variable {record : TimelineRecord} {event : Event}

/-- The item that is read where a record is written. -/
def itemOf (record : TimelineRecord) : Json :=
  record.toJson.readBackFields

/-- An item of something in time, and not of a name. -/
def isMomentItem (item : Json) : Bool :=
  item.textField? "ph" != some "M"

/-- The name that an item gives. -/
def givenName? (item : Json) : Option String := do
  (← item.field? "args").textField? "name"

/-- The process that an item names, and its name. -/
def processName? (item : Json) : Option (UInt64 × String) := do
  guard (item.textField? "name" = some "process_name")
  some (← item.wordField? "pid", ← givenName? item)

/-- The thread that an item names, and its name. -/
def threadName? (item : Json) : Option (Scope × String) := do
  guard (item.textField? "name" = some "thread_name")
  some (⟨← item.wordField? "pid", ← item.wordField? "tid"⟩, ← givenName? item)

/-- An item that says what an event says, each thing once. It has a time unless that is beyond all
numbers in microseconds, and a flow number exactly for a flow event that has one. -/
structure Shows (item : Json) (event : Event) : Prop where
  keys : item.keys.Nodup
  name : item.field? "name" = some (.text event.name)
  pid : item.field? "pid" = some (.word event.scope.pid)
  tid : item.field? "tid" = some (.word event.scope.tid)
  phase : item.field? "ph" = some (.text event.phase.code)
  args : item.field? "args" = some (.object event.args)
  time : item.field? "ts" =
    some (if (event.time.val * 1000).isFinite then .real (event.time.val * 1000) else .null)
  flow : item.field? "id" = if event.phase.isFlow then event.flow.map .word else none

/-- Items that hold a whole trace: those of something in time show its events one by one, and the
others give its names. -/
structure Recovers (items : List Json) (trace : Trace) : Prop where
  events : List.Forall₂ Shows (items.filter isMomentItem) trace.events
  processes : (items.filter (!isMomentItem ·)).filterMap processName? = trace.processNames
  threads : (items.filter (!isMomentItem ·)).filterMap threadName? = trace.threadNames
  names : (items.filter (!isMomentItem ·)).length =
    trace.processNames.length + trace.threadNames.length

/-! ## Items of records -/

theorem isKept_itemOf (h : areKeptFields record.args = true) : (itemOf record).isKept = true := by
  obtain ⟨name, time, scope, args, code, flow⟩ := record
  have htext (s : String) : (Json.text s).readBack.isKept = true := rfl
  cases time <;> cases flow <;>
    simp [itemOf, TimelineRecord.toJson, TimelineRecord.optional, readBackFields, isKept,
      areKeptFields, word, isWhole_word, isKept_readBack_real, isKept_readBack, htext, h]

/-- No item has two fields of one key. -/
theorem nodup_keys_itemOf (record : TimelineRecord) : (itemOf record).keys.Nodup := by
  obtain ⟨name, time, scope, args, code, flow⟩ := record
  cases time <;> cases flow <;>
    simp [itemOf, TimelineRecord.toJson, TimelineRecord.optional, readBackFields, keys]

/-- The fields of an item are those of its record. -/
theorem field?_itemOf (record : TimelineRecord) :
    (itemOf record).field? "name" = some (.text record.name) ∧
    (itemOf record).field? "ts" = record.time.map (fun time => (Json.real time).readBack) ∧
    (itemOf record).field? "pid" = some (.word record.scope.pid) ∧
    (itemOf record).field? "tid" = some (.word record.scope.tid) ∧
    (itemOf record).field? "args" = some (.object record.args) ∧
    (itemOf record).field? "ph" = some (.text record.code) ∧
    (itemOf record).field? "id" = record.flow.map .word := by
  obtain ⟨name, time, scope, args, code, flow⟩ := record
  simp only [itemOf, field?_readBackFields]
  cases time <;> cases flow <;>
    simp [TimelineRecord.toJson, TimelineRecord.optional, field?, Fields.get?, readBack, word]

theorem isMomentItem_itemOf (record : TimelineRecord) :
    isMomentItem (itemOf record) = isMoment record := by
  obtain ⟨-, -, -, -, -, hcode, -⟩ := field?_itemOf record
  rw [isMomentItem, textField?, hcode, isMoment]
  rfl

/-- The items of something in time are those of the records of something in time. -/
theorem filter_isMomentItem_map (shown : List TimelineRecord) :
    (shown.map itemOf).filter isMomentItem = (shown.filter isMoment).map itemOf := by
  rw [List.filter_map]
  exact congrArg _ (List.filter_congr fun record _ => isMomentItem_itemOf record)

theorem shows_itemOf (event : Event) : Shows (itemOf (.ofEvent event)) event := by
  obtain ⟨hname, htime, hpid, htid, hargs, hcode, hflow⟩ := field?_itemOf (.ofEvent event)
  refine ⟨nodup_keys_itemOf _, hname, hpid, htid, hcode, hargs, htime, hflow.trans ?_⟩
  rw [TimelineRecord.ofEvent]
  split_ifs <;> rfl

theorem wordField?_eq {item : Json} {key : String} {n : UInt64}
    (h : item.field? key = some (.word n)) : item.wordField? key = some n := by
  rw [wordField?, h, word]
  simp

/-- The name, process, thread and kind that the item of a name gives. -/
theorem fields_ofName (kind : String) (scope : Scope) (name : String) :
    (itemOf (.ofName kind scope name)).textField? "name" = some kind ∧
    (itemOf (.ofName kind scope name)).wordField? "pid" = some scope.pid ∧
    (itemOf (.ofName kind scope name)).wordField? "tid" = some scope.tid ∧
    givenName? (itemOf (.ofName kind scope name)) = some name := by
  obtain ⟨hname, -, hpid, htid, hargs, -⟩ := field?_itemOf (.ofName kind scope name)
  refine ⟨?_, wordField?_eq hpid, wordField?_eq htid, ?_⟩
  · rw [textField?, hname]
    rfl
  · rw [givenName?, hargs]
    rfl

theorem processName?_ofProcessName (pid : UInt64) (name : String) :
    processName? (itemOf (.ofProcessName pid name)) = some (pid, name) := by
  obtain ⟨hkind, hpid, -, hgiven⟩ := fields_ofName "process_name" ⟨pid, 0⟩ name
  rw [TimelineRecord.ofProcessName, processName?, hkind, hpid, hgiven]
  rfl

theorem threadName?_ofProcessName (pid : UInt64) (name : String) :
    threadName? (itemOf (.ofProcessName pid name)) = none := by
  obtain ⟨hkind, -⟩ := fields_ofName "process_name" ⟨pid, 0⟩ name
  rw [TimelineRecord.ofProcessName, threadName?, hkind]
  rfl

theorem processName?_ofThreadName (scope : Scope) (name : String) :
    processName? (itemOf (.ofThreadName scope name)) = none := by
  obtain ⟨hkind, -⟩ := fields_ofName "thread_name" scope name
  rw [TimelineRecord.ofThreadName, processName?, hkind]
  rfl

theorem threadName?_ofThreadName (scope : Scope) (name : String) :
    threadName? (itemOf (.ofThreadName scope name)) = some (scope, name) := by
  obtain ⟨hkind, hpid, htid, hgiven⟩ := fields_ofName "thread_name" scope name
  rw [TimelineRecord.ofThreadName, threadName?, hkind, hpid, htid, hgiven]
  rfl

/-! ## The whole document -/

/-- The document of records is read as their items, in order. -/
theorem decode?_document (h : ∀ record ∈ shown, areKeptFields record.args = true) :
    Json.decode? (document shown).pretty = some (.object
      [("traceEvents", .list (shown.map itemOf)), ("displayTimeUnit", .text "ms")]) := by
  have hitems : shown.map itemOf = (shown.map TimelineRecord.toJson).map readBackFields := by
    rw [List.map_map]
    rfl
  have hpretty : (document shown).pretty =
      (Json.object [("traceEvents", .list (shown.map itemOf)),
        ("displayTimeUnit", .text "ms")]).pretty := by
    rw [document, pretty, pretty, prettyChars, prettyChars, hitems,
      prettyChars_list_readBackFields]
  have hkept : areKept (shown.map itemOf) = true :=
    areKept_map fun record hrecord => isKept_itemOf (h record hrecord)
  rw [hpretty]
  refine decode?_pretty ?_
  simp [isKept, areKeptFields, hkept]

/-- The records of names without chains name the processes and threads of the trace. -/
theorem nameRecords_noChains (trace : Trace) (track : ChainTrack) :
    nameRecords trace track false =
      trace.processNames.map (fun entry => .ofProcessName entry.1 entry.2) ++
        trace.threadNames.map fun entry => .ofThreadName entry.1 entry.2 := by
  rw [nameRecords]
  cases track.processName <;> simp

/-- The records of names have a name as their argument. -/
theorem areKeptFields_nameRecords {hasChains : Bool}
    (h : record ∈ nameRecords trace track hasChains) : areKeptFields record.args = true := by
  rw [nameRecords, List.mem_append, List.mem_append] at h
  rcases h with (hprocess | hchains) | hthread
  · obtain ⟨entry, -, rfl⟩ := List.mem_map.1 hprocess
    rfl
  · split at hchains
    · split at hchains
      · rw [List.mem_singleton.1 hchains]
        rfl
      · contradiction
    · contradiction
  · obtain ⟨entry, -, rfl⟩ := List.mem_map.1 hthread
    rfl

/-- Records have the arguments of events, or the name that they give, or none. -/
theorem areKeptFields_args {chains : List Chain} (h : records trace chains track = .ok shown)
    (hargs : ∀ event ∈ trace.events, areKeptFields event.args = true) :
    ∀ record ∈ shown, areKeptFields record.args = true := by
  obtain ⟨-, rfl⟩ := records_eq_ok_iff.1 h
  intro record hrecord
  rw [List.mem_append, List.mem_append] at hrecord
  rcases hrecord with (hevent | hchain) | hname
  · obtain ⟨event, hmem, rfl⟩ := List.mem_map.1 hevent
    exact hargs event hmem
  · rw [(of_mem_ofChains hchain).2.2]
    rfl
  · exact areKeptFields_nameRecords hname

/-- The items of a timeline without chains hold its trace. -/
theorem recovers_records (h : records trace [] track = .ok shown) :
    Recovers (shown.map itemOf) trace := by
  have hevents : (shown.map itemOf).filter isMomentItem =
      trace.events.map fun event => itemOf (.ofEvent event) := by
    rw [filter_isMomentItem_map, filter_isMoment_records h, List.flatMap_nil, List.append_nil,
      List.map_map]
    rfl
  have hothers : (!isMomentItem ·) ∘ itemOf = (!isMoment ·) :=
    funext fun record => congrArg (!·) (isMomentItem_itemOf record)
  have hnames : (shown.map itemOf).filter (!isMomentItem ·) =
      trace.processNames.map (fun entry => itemOf (.ofProcessName entry.1 entry.2)) ++
        trace.threadNames.map fun entry => itemOf (.ofThreadName entry.1 entry.2) := by
    rw [List.filter_map, hothers, filter_not_isMoment_records h, List.isEmpty_nil, Bool.not_true,
      nameRecords_noChains, List.map_append, List.map_map, List.map_map]
    rfl
  constructor
  case events =>
    rw [hevents, List.forall₂_map_left_iff]
    exact List.forall₂_same.2 fun event _ => shows_itemOf event
  case processes =>
    rw [hnames, List.filterMap_append, List.filterMap_map, List.filterMap_map]
    simp [processName?_ofProcessName, processName?_ofThreadName]
  case threads =>
    rw [hnames, List.filterMap_append, List.filterMap_map, List.filterMap_map]
    simp [threadName?_ofProcessName, threadName?_ofThreadName]
  case names =>
    rw [hnames, List.length_append, List.length_map, List.length_map]

/-- The text of a timeline without chains is a document whose items hold all of its trace, the
events in trace order and the names in key order, wherever the chains would go. Arguments are
values that JSON keeps: whole numbers of 64 bits and finite real ones. -/
theorem text_recovers (built : trace.Built)
    (hargs : ∀ event ∈ trace.events, areKeptFields event.args = true) (track : ChainTrack) :
    ∃ text items, Timeline.text trace [] track = .ok text ∧
      Json.decode? text =
        some (.object [("traceEvents", .list items), ("displayTimeUnit", .text "ms")]) ∧
      Recovers items trace ∧ trace.NamesInOrder := by
  obtain ⟨shown, hshown⟩ : ∃ shown, records trace [] track = .ok shown :=
    ⟨_, records_eq_ok_iff.2 ⟨Or.inl rfl, rfl⟩⟩
  exact ⟨_, shown.map itemOf, text_eq_ok_iff.2 ⟨shown, hshown, rfl⟩,
    decode?_document (areKeptFields_args hshown hargs), recovers_records hshown,
    built.namesInOrder⟩

/-- A message that starts a flow in a named thread, with an argument that needs escapes. -/
def message : Event :=
  ⟨"send", .flowBegin, .zero, ⟨7, 1⟩, some 3, [("a \"note\"", .list [.whole (-1), .real 0.5])],
    Trace.send_ne_empty⟩

/-- A trace of one message. -/
def sending : Trace :=
  ((Trace.ofEvents [message]).nameProcess 7 "sender").nameThread ⟨7, 1⟩ "main"

theorem events_sending : sending.events = [message] := by
  have hplace : Trace.empty.place message.time = 0 := Nat.le_zero.1 (Trace.empty.place_le _)
  have horder := Trace.toList_order_add .empty message
  rw [hplace] at horder
  exact congrArg (List.map (·.event)) horder

/-- The message is read back with its flow and its argument, and so are the two names. -/
theorem text_recovers_message :
    ∃ text items item, Timeline.text sending [] {} = .ok text ∧
      Json.decode? text =
        some (.object [("traceEvents", .list items), ("displayTimeUnit", .text "ms")]) ∧
      items.filter isMomentItem = [item] ∧ item.field? "id" = some (.word 3) ∧
      item.field? "args" =
        some (.object [("a \"note\"", .list [.whole (-1), .real 0.5])]) ∧
      (items.filter (!isMomentItem ·)).filterMap processName? = [(7, "sender")] ∧
      (items.filter (!isMomentItem ·)).filterMap threadName? = [(⟨7, 1⟩, "main")] := by
  have built : sending.Built := ((Trace.built_ofEvents [message]).nameProcess 7 "sender").nameThread
    ⟨7, 1⟩ "main"
  have hargs : ∀ event ∈ sending.events, areKeptFields event.args = true := by
    rw [events_sending]
    decide +kernel
  obtain ⟨text, items, htext, hdecode, hrecovers, -⟩ := text_recovers built hargs {}
  have hevents := hrecovers.events
  rw [events_sending] at hevents
  obtain ⟨item, rest, hshows, hrest, hitems⟩ := List.forall₂_cons_right_iff.1 hevents
  rw [List.forall₂_nil_right_iff.1 hrest] at hitems
  exact ⟨text, items, item, htext, hdecode, hitems, hshows.flow, hshows.args, hrecovers.processes,
    hrecovers.threads⟩

end Timeline

end EventChains
