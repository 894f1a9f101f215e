import EventChains.Proofs.Matching.Chains
import EventChains.Proofs.Timeline.RoundTrip

/-!
# Names in a timeline

A timeline gives the names of its trace and the name of the process of the chains. The tables of a
trace name nothing twice, but the trace may name the process of the chains too. `text_names` says
which items of names there are for each process and each thread, and that this is the only way in
which something is named twice.
-/

namespace EventChains.Timeline

open Json Matching

variable {trace : Trace} {chains : List Chain} {track : ChainTrack} {shown : List TimelineRecord}

/-- An item of the name of a process. -/
def namesProcess (pid : UInt64) (item : Json) : Bool :=
  !isMomentItem item && item.textField? "name" == some "process_name" &&
    item.wordField? "pid" == some pid

/-- An item of the name of a thread. -/
def namesThread (scope : Scope) (item : Json) : Bool :=
  !isMomentItem item && item.textField? "name" == some "thread_name" &&
    item.wordField? "pid" == some scope.pid && item.wordField? "tid" == some scope.tid

/-- Items that name each process and each thread at most once. -/
structure NamesOnce (items : List Json) : Prop where
  processes : ∀ pid, (items.filter (namesProcess pid)).length ≤ 1
  threads : ∀ scope, (items.filter (namesThread scope)).length ≤ 1

/-- The names that a timeline gives to a process: the one that the trace has for it, and then the
one of the process of the chains. -/
def namesOf (trace : Trace) (chains : List Chain) (track : ChainTrack) (pid : UInt64) :
    List String :=
  (trace.processNames.get? pid).toList ++
    if chains ≠ [] ∧ pid = track.pid then track.processName.toList else []

/-- The item of the name of a process. -/
def processItem (pid : UInt64) (name : String) : Json :=
  itemOf (.ofProcessName pid name)

/-- The item of the name of a thread. -/
def threadItem (scope : Scope) (name : String) : Json :=
  itemOf (.ofThreadName scope name)

theorem isMomentItem_processItem (pid : UInt64) (name : String) :
    isMomentItem (processItem pid name) = false :=
  isMomentItem_itemOf _

theorem isMomentItem_threadItem (scope : Scope) (name : String) :
    isMomentItem (threadItem scope name) = false :=
  isMomentItem_itemOf _

theorem givenName?_processItem (pid : UInt64) (name : String) :
    givenName? (processItem pid name) = some name :=
  (fields_ofName "process_name" ⟨pid, 0⟩ name).2.2.2

theorem givenName?_threadItem (scope : Scope) (name : String) :
    givenName? (threadItem scope name) = some name :=
  (fields_ofName "thread_name" scope name).2.2.2

theorem namesProcess_processItem (pid other : UInt64) (name : String) :
    namesProcess pid (processItem other name) = (other == pid) := by
  obtain ⟨hkind, hpid, -⟩ := fields_ofName "process_name" ⟨other, 0⟩ name
  rw [namesProcess, isMomentItem_processItem, processItem, TimelineRecord.ofProcessName, hkind,
    hpid]
  rfl

theorem namesProcess_threadItem (pid : UInt64) (scope : Scope) (name : String) :
    namesProcess pid (threadItem scope name) = false := by
  obtain ⟨hkind, -⟩ := fields_ofName "thread_name" scope name
  rw [namesProcess, threadItem, TimelineRecord.ofThreadName, hkind]
  simp

theorem namesThread_processItem (scope : Scope) (pid : UInt64) (name : String) :
    namesThread scope (processItem pid name) = false := by
  obtain ⟨hkind, -⟩ := fields_ofName "process_name" ⟨pid, 0⟩ name
  rw [namesThread, processItem, TimelineRecord.ofProcessName, hkind]
  simp

theorem namesThread_threadItem (scope other : Scope) (name : String) :
    namesThread scope (threadItem other name) = decide (other = scope) := by
  obtain ⟨hkind, hpid, htid, -⟩ := fields_ofName "thread_name" other name
  rw [namesThread, isMomentItem_threadItem, threadItem, TimelineRecord.ofThreadName, hkind, hpid,
    htid]
  obtain ⟨pid, tid⟩ := other
  obtain ⟨pid', tid'⟩ := scope
  simp [Bool.beq_eq_decide_eq]

theorem nameRecords_eq (trace : Trace) (track : ChainTrack) (hasChains : Bool) :
    (nameRecords trace track hasChains).map itemOf =
      trace.processNames.map (fun entry => processItem entry.1 entry.2) ++
        (if hasChains then track.processName.toList.map (processItem track.pid) else []) ++
        trace.threadNames.map fun entry => threadItem entry.1 entry.2 := by
  unfold nameRecords
  rw [List.map_append, List.map_append, List.map_map, List.map_map]
  cases track.processName <;> cases hasChains <;> rfl

/-- Items of names are among those of nothing in time. -/
theorem filter_names {names : Json → Bool}
    (hnames : ∀ item, names item = true → isMomentItem item = false)
    (h : records trace chains track = .ok shown) :
    (shown.map itemOf).filter names =
      ((nameRecords trace track !chains.isEmpty).map itemOf).filter names := by
  rw [← filter_not_isMoment_records h, List.filter_map, List.filter_map, List.filter_filter]
  refine congrArg _ (List.filter_congr fun record _ => ?_)
  cases hrecord : names (itemOf record) with
  | false => simp [hrecord]
  | true =>
      have hmoment := hnames _ hrecord
      rw [isMomentItem_itemOf] at hmoment
      simp [hrecord, hmoment]

section Table

variable {κ : Type} [DecidableEq κ] [LT κ] {table : NameTable κ} {names : Json → Bool}
  {item : κ → String → Json}

/-- Among the items of a table those that name one key are the item of the name under it. -/
theorem filter_map_table [IsStrictTotalOrder κ (· < ·)] (ordered : table.InOrder) (key : κ)
    (hnames : ∀ other name, names (item other name) = decide (other = key)) :
    (table.map fun entry => item entry.1 entry.2).filter names =
      (table.get? key).toList.map (item key) := by
  have hkey : names ∘ (fun entry : κ × String => item entry.1 entry.2) =
      fun entry => decide (entry.1 = key) :=
    funext fun entry => hnames entry.1 entry.2
  rw [List.filter_map, hkey, NameTable.InOrder.filter_eq ordered key, List.map_map]
  rfl

omit [DecidableEq κ] [LT κ] in
/-- None of the items of a table is of another sort. -/
theorem filter_map_table_of_other (hnames : ∀ key name, names (item key name) = false) :
    (table.map fun entry => item entry.1 entry.2).filter names = [] := by
  refine List.filter_eq_nil_iff.2 fun shown hshown => ?_
  obtain ⟨entry, -, rfl⟩ := List.mem_map.1 hshown
  simp [hnames]

end Table

/-- The items of the names of a process. -/
theorem filter_namesProcess (ordered : trace.NamesInOrder)
    (h : records trace chains track = .ok shown) (pid : UInt64) :
    (shown.map itemOf).filter (namesProcess pid) =
      (namesOf trace chains track pid).map (processItem pid) := by
  have hnames (item : Json) (hitem : namesProcess pid item = true) :
      isMomentItem item = false := by
    rw [namesProcess, Bool.and_eq_true, Bool.and_eq_true, Bool.not_eq_true'] at hitem
    exact hitem.1.1
  have hchain : (if !chains.isEmpty then track.processName.toList.map (processItem track.pid)
        else []).filter (namesProcess pid) =
      (if chains ≠ [] ∧ pid = track.pid then track.processName.toList else []).map
        (processItem pid) := by
    cases chains <;> cases track.processName <;> grind [namesProcess_processItem]
  rw [filter_names hnames h, nameRecords_eq, List.filter_append, List.filter_append,
    filter_map_table ordered.processes pid (namesProcess_processItem pid), hchain,
    filter_map_table_of_other (namesProcess_threadItem pid), List.append_nil, namesOf,
    List.map_append]

/-- The items of the names of a thread. -/
theorem filter_namesThread (ordered : trace.NamesInOrder)
    (h : records trace chains track = .ok shown) (scope : Scope) :
    (shown.map itemOf).filter (namesThread scope) =
      (trace.threadNames.get? scope).toList.map (threadItem scope) := by
  have hnames (item : Json) (hitem : namesThread scope item = true) :
      isMomentItem item = false := by
    rw [namesThread, Bool.and_eq_true, Bool.and_eq_true, Bool.and_eq_true,
      Bool.not_eq_true'] at hitem
    exact hitem.1.1.1
  have hchain : (if !chains.isEmpty then track.processName.toList.map (processItem track.pid)
        else []).filter (namesThread scope) = [] := by
    cases chains <;> cases track.processName <;> simp [namesThread_processItem]
  rw [filter_names hnames h, nameRecords_eq, List.filter_append, List.filter_append,
    filter_map_table_of_other (namesThread_processItem scope), hchain,
    filter_map_table ordered.threads scope (namesThread_threadItem scope)]
  rfl

/-- A process has more than one name exactly if it is the one of the chains and the trace names it
too. -/
theorem length_namesOf_le_iff (pid : UInt64) :
    (namesOf trace chains track pid).length ≤ 1 ↔
      ¬ (chains ≠ [] ∧ pid = track.pid ∧ track.processName.isSome ∧
        (trace.processNames.get? pid).isSome) := by
  unfold namesOf
  cases trace.processNames.get? pid <;> cases track.processName <;> split_ifs <;> simp_all

/-- Each process and each thread is named at most once, unless chains go with a name to a process
that has a name in the trace. -/
theorem namesOnce_iff (ordered : trace.NamesInOrder)
    (h : records trace chains track = .ok shown) :
    NamesOnce (shown.map itemOf) ↔ ¬ (chains ≠ [] ∧ track.processName.isSome ∧
      (trace.processNames.get? track.pid).isSome) := by
  constructor
  · rintro once ⟨hchains, hname, hown⟩
    have hlength := once.processes track.pid
    rw [filter_namesProcess ordered h, List.length_map, length_namesOf_le_iff] at hlength
    exact hlength ⟨hchains, rfl, hname, hown⟩
  · intro hfree
    constructor
    case processes =>
      intro pid
      rw [filter_namesProcess ordered h, List.length_map, length_namesOf_le_iff]
      rintro ⟨hchains, rfl, hname, hown⟩
      exact hfree ⟨hchains, hname, hown⟩
    case threads =>
      intro scope
      rw [filter_namesThread ordered h, List.length_map]
      exact Option.length_toList_le

/-- The items of names in a timeline: each thread has at most one, with the name in the trace; and
each process has one for the name in the trace and, if it is the process of chains, one for the name
given for that. So each process and each thread is named at most once, unless chains go with a name
to a process that has a name in the trace. Arguments are values that JSON keeps: whole numbers of 64
bits and finite real ones. -/
theorem text_names (built : trace.Built)
    (hargs : ∀ event ∈ trace.events, areKeptFields event.args = true) {text : String}
    (htext : Timeline.text trace chains track = .ok text) :
    ∃ items, Json.decode? text =
        some (.object [("traceEvents", .list items), ("displayTimeUnit", .text "ms")]) ∧
      (∀ scope, (items.filter (namesThread scope)).map givenName? =
        (trace.threadNames.get? scope).toList.map some) ∧
      (∀ pid, (items.filter (namesProcess pid)).map givenName? =
        (trace.processNames.get? pid).toList.map some ++
          if chains ≠ [] ∧ pid = track.pid then track.processName.toList.map some else []) ∧
      (NamesOnce items ↔ ¬ (chains ≠ [] ∧ track.processName.isSome ∧
        (trace.processNames.get? track.pid).isSome)) := by
  obtain ⟨shown, hshown, rfl⟩ := text_eq_ok_iff.1 htext
  have ordered := built.namesInOrder
  refine ⟨shown.map itemOf, decode?_document (areKeptFields_args hshown hargs), fun scope => ?_,
    fun pid => ?_, namesOnce_iff ordered hshown⟩
  · rw [filter_namesThread ordered hshown, List.map_map]
    exact List.map_congr_left fun name _ => givenName?_threadItem scope name
  · have hgiven : givenName? ∘ processItem pid = some :=
      funext fun name => givenName?_processItem pid name
    rw [filter_namesProcess ordered hshown, List.map_map, hgiven, namesOf, List.map_append,
      apply_ite (List.map _)]
    rfl

/-- A load in a named thread of a named process, and its chain in a process with another name. -/
theorem text_names_load :
    let trace := (Trace.load.nameProcess 0 "server").nameThread ⟨0, 0⟩ "main"
    let chain := chainOfPath trace "loads" [0, 1, 2]
    let track : ChainTrack := ⟨1000, 0, some "chains"⟩
    trace.Built ∧ (∀ event ∈ trace.events, areKeptFields event.args = true) ∧
      ∃ text items, Timeline.text trace [chain] track = .ok text ∧
        Json.decode? text =
          some (.object [("traceEvents", .list items), ("displayTimeUnit", .text "ms")]) ∧
        (items.filter (namesThread ⟨0, 0⟩)).map givenName? = [some "main"] ∧
        (items.filter (namesProcess 0)).map givenName? = [some "server"] ∧
        (items.filter (namesProcess 1000)).map givenName? = [some "chains"] ∧
        NamesOnce items := by
  intro trace chain track
  have built : trace.Built := (Trace.built_load.nameProcess 0 "server").nameThread ⟨0, 0⟩ "main"
  have hargs : ∀ event ∈ trace.events, areKeptFields event.args = true := by decide +kernel
  obtain ⟨text, htext⟩ : ∃ text, Timeline.text trace [chain] track = .ok text :=
    ⟨_, text_eq_ok_iff.2 ⟨_, records_eq_ok_iff.2 ⟨Or.inr (by decide +kernel), rfl⟩, rfl⟩⟩
  obtain ⟨items, hdecode, hthreads, hprocesses, honce⟩ := text_names built hargs htext
  exact ⟨built, hargs, text, items, htext, hdecode, hthreads ⟨0, 0⟩, hprocesses 0,
    hprocesses 1000, honce.2 (by decide)⟩

/-- The chain of a load in a process that has a name: the process gets a second one. -/
theorem not_namesOnce :
    let trace := Trace.load.nameProcess 1000 "server"
    let chain := chainOfPath trace "loads" [0, 1, 2]
    let track : ChainTrack := ⟨1000, 0, some "chains"⟩
    trace.Built ∧ chain ∈ find trace .load "loads" .noRepeat ∧
      ∃ text items, Timeline.text trace [chain] track = .ok text ∧
        Json.decode? text =
          some (.object [("traceEvents", .list items), ("displayTimeUnit", .text "ms")]) ∧
        (items.filter (namesProcess 1000)).map givenName? = [some "server", some "chains"] ∧
        ¬ NamesOnce items := by
  intro trace chain track
  have built : trace.Built := Trace.built_load.nameProcess 1000 "server"
  have hargs : ∀ event ∈ trace.events, areKeptFields event.args = true := by decide +kernel
  have hfound : chain ∈ find trace .load "loads" .noRepeat := List.mem_map_of_mem (load_mem_find _)
  obtain ⟨shown, hshown⟩ : ∃ shown, records trace [chain] track = .ok shown :=
    ⟨_, records_eq_ok_iff.2 ⟨Or.inr (by decide +kernel), rfl⟩⟩
  have hnames := filter_namesProcess built.namesInOrder hshown 1000
  refine ⟨built, hfound, _, shown.map itemOf, text_eq_ok_iff.2 ⟨shown, hshown, rfl⟩,
    decode?_document (areKeptFields_args hshown hargs), ?_, fun once => ?_⟩
  · rw [hnames]
    rfl
  · exact (namesOnce_iff built.namesInOrder hshown).1 once (by decide)

end EventChains.Timeline
