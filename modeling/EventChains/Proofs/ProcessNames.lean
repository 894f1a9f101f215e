import EventChains.Proofs.Trace.Names
import EventChains.Settings.Basic
import Mathlib.Data.List.Induction

/-!
# Names of processes in settings

Settings name processes under keys that are read as process ids, and a process id can be written in
several ways. Every name is set in turn, so the last key that denotes a process gives it its name
(`get?_applyNames`). All names are in effect exactly if keys of one process have one name
(`applyNames_inEffect`); `Settings.check` looks at each key alone and lets others pass too.
-/

namespace EventChains.Settings

variable {settings : Settings} {trace : Trace} {key name : String} {pid : UInt64}

/-- The name that settings give to a process: the last one whose key denotes it. -/
def nameFor? (settings : Settings) (pid : UInt64) : Option String :=
  (settings.processNames.filter fun entry => processOf? entry.1 = some pid).getLast?.map (·.2)

/-- A configured name that a trace has for the process that its key denotes. -/
def InEffect (trace : Trace) (entry : String × String) : Prop :=
  ∃ pid, processOf? entry.1 = some pid ∧ trace.processNames.get? pid = some entry.2

/-- Keys that denote the same process have the same name. -/
def NamesAgree (settings : Settings) : Prop :=
  ∀ entry ∈ settings.processNames, ∀ other ∈ settings.processNames,
    processOf? entry.1 = processOf? other.1 → entry.2 = other.2

/-! ## Checked settings -/

/-- Settings are in order exactly if all patterns compile, all keys denote processes, and all chains
have labels. -/
theorem check_eq_ok_iff :
    settings.check = .ok () ↔ (∃ specs, settings.specs = .ok specs) ∧
      (∀ entry ∈ settings.processNames, (processOf? entry.1).isSome) ∧
      ∀ entry ∈ settings.chains, entry.label ≠ "" := by
  have hprocess : settings.badProcess? = none ↔
      ∀ entry ∈ settings.processNames, (processOf? entry.1).isSome := by
    simp [badProcess?, List.find?_eq_none, Option.isSome_iff_ne_none]
  have hlabel : settings.unlabelled? = none ↔ ∀ entry ∈ settings.chains, entry.label ≠ "" := by
    simp [unlabelled?, List.find?_eq_none]
  rw [← hprocess, ← hlabel, check]
  cases settings.specs <;> cases settings.badProcess? <;> cases settings.unlabelled? <;> simp

/-! ## Names that are set -/

/-- A name is set for the process that its key denotes, and for no other. -/
theorem get?_nameProcess (trace : Trace) (key name : String) (pid : UInt64) :
    (nameProcess trace key name).processNames.get? pid =
      if processOf? key = some pid then some name else trace.processNames.get? pid := by
  unfold nameProcess
  split
  · rename_i denoted hkey
    show (trace.processNames.set denoted name).get? pid = _
    simp only [NameTable.get?_set, hkey, Option.some.injEq, eq_comm (a := pid)]
  · rename_i hkey
    rw [hkey, if_neg (Option.some_ne_none pid).symm]

/-- Naming a process changes names of processes only. -/
theorem nameProcess_eq (trace : Trace) (key name : String) :
    ∃ names, nameProcess trace key name = { trace with processNames := names } := by
  unfold nameProcess
  split
  · exact ⟨_, rfl⟩
  · exact ⟨trace.processNames, rfl⟩

/-- The last of some names for a process is the one that is set, and without any the process keeps
the name that it has. -/
theorem get?_foldl_nameProcess (entries : NameTable String) (trace : Trace) (pid : UInt64) :
    (entries.foldl (fun trace entry => nameProcess trace entry.1 entry.2) trace).processNames.get?
        pid =
      ((entries.filter fun entry => processOf? entry.1 = some pid).getLast?.map (·.2)).or
        (trace.processNames.get? pid) := by
  -- the entry that is set last decides, so the induction goes from the end
  induction entries using List.reverseRecOn with
  | nil => rfl
  | append_singleton entries last ih =>
      rw [List.foldl_append, List.foldl_cons, List.foldl_nil, get?_nameProcess, ih,
        List.filter_append]
      by_cases hlast : processOf? last.1 = some pid
      · rw [if_pos hlast, List.filter_cons_of_pos (by simpa using hlast)]
        simp
      · rw [if_neg hlast, List.filter_cons_of_neg (by simpa using hlast)]
        simp

theorem get?_applyNames (settings : Settings) (trace : Trace) (pid : UInt64) :
    (settings.applyNames trace).processNames.get? pid =
      (settings.nameFor? pid).or (trace.processNames.get? pid) :=
  get?_foldl_nameProcess settings.processNames trace pid

/-- Settings change names of processes only. -/
theorem applyNames_eq (settings : Settings) (trace : Trace) :
    ∃ names, settings.applyNames trace = { trace with processNames := names } := by
  unfold applyNames
  induction settings.processNames generalizing trace with
  | nil => exact ⟨trace.processNames, rfl⟩
  | cons entry rest ih =>
      obtain ⟨names, hnames⟩ := nameProcess_eq trace entry.1 entry.2
      obtain ⟨others, hothers⟩ := ih (nameProcess trace entry.1 entry.2)
      refine ⟨others, ?_⟩
      rw [List.foldl_cons, hothers, hnames]

/-- A process that some key denotes gets one of the names for it. -/
theorem exists_nameFor? {entry : String × String} (hentry : entry ∈ settings.processNames)
    (hpid : processOf? entry.1 = some pid) :
    ∃ last ∈ settings.processNames, processOf? last.1 = some pid ∧
      settings.nameFor? pid = some last.2 := by
  have hmem : entry ∈ settings.processNames.filter fun entry => processOf? entry.1 = some pid :=
    List.mem_filter.2 ⟨hentry, by simpa using hpid⟩
  have hlast := List.getLast?_eq_some_getLast (List.ne_nil_of_mem hmem)
  obtain ⟨hin, hdenotes⟩ := List.mem_filter.1 (List.mem_of_getLast? hlast)
  exact ⟨_, hin, by simpa using hdenotes, by rw [nameFor?, hlast]; rfl⟩

theorem nameFor?_eq_none
    (h : ∀ entry ∈ settings.processNames, processOf? entry.1 ≠ some pid) :
    settings.nameFor? pid = none := by
  rw [nameFor?, List.filter_eq_nil_iff.2 (by simpa using h)]
  rfl

/-- A name is in effect exactly if it is the last one for its process. -/
theorem inEffect_applyNames_iff {entry : String × String}
    (hentry : entry ∈ settings.processNames) (hpid : processOf? entry.1 = some pid) :
    InEffect (settings.applyNames trace) entry ↔ settings.nameFor? pid = some entry.2 := by
  obtain ⟨last, -, -, hname⟩ := exists_nameFor? hentry hpid
  have hget : (settings.applyNames trace).processNames.get? pid = settings.nameFor? pid := by
    rw [get?_applyNames, hname, Option.some_or]
  rw [← hget]
  constructor
  · rintro ⟨denoted, hdenoted, hin⟩
    obtain rfl : pid = denoted := Option.some.inj (hpid.symm.trans hdenoted)
    exact hin
  · exact fun hin => ⟨pid, hpid, hin⟩

/-- All names are in effect exactly if keys of one process have one name. -/
theorem forall_inEffect_iff
    (hkeys : ∀ entry ∈ settings.processNames, (processOf? entry.1).isSome) :
    (∀ entry ∈ settings.processNames, InEffect (settings.applyNames trace) entry) ↔
      settings.NamesAgree := by
  constructor
  · intro heffect entry hentry other hother hsame
    obtain ⟨pid, hpid⟩ := Option.isSome_iff_exists.1 (hkeys entry hentry)
    have hname := (inEffect_applyNames_iff hentry hpid).1 (heffect entry hentry)
    have hothername :=
      (inEffect_applyNames_iff hother (hsame.symm.trans hpid)).1 (heffect other hother)
    exact Option.some.inj (hname.symm.trans hothername)
  · intro agree entry hentry
    obtain ⟨pid, hpid⟩ := Option.isSome_iff_exists.1 (hkeys entry hentry)
    obtain ⟨last, hlast, hdenotes, hname⟩ := exists_nameFor? hentry hpid
    rw [inEffect_applyNames_iff hentry hpid, hname,
      agree last hlast entry hentry (hdenotes.trans hpid.symm)]

/-- Settings that are in order give each process that a key denotes the name under the last such
key, and leave all other names and the rest of the trace as they are. So all names that they give
are in effect exactly if keys of one process have one name. -/
theorem applyNames_inEffect (hcheck : settings.check = .ok ()) (trace : Trace) :
    (∀ entry ∈ settings.processNames, ∃ pid last, processOf? entry.1 = some pid ∧
      settings.nameFor? pid = some last ∧
      (settings.applyNames trace).processNames.get? pid = some last) ∧
    (∀ pid, (∀ entry ∈ settings.processNames, processOf? entry.1 ≠ some pid) →
      (settings.applyNames trace).processNames.get? pid = trace.processNames.get? pid) ∧
    (∃ names, settings.applyNames trace = { trace with processNames := names }) ∧
    ((∀ entry ∈ settings.processNames, InEffect (settings.applyNames trace) entry) ↔
      settings.NamesAgree) := by
  obtain ⟨-, hkeys, -⟩ := check_eq_ok_iff.1 hcheck
  refine ⟨fun entry hentry => ?_, fun pid hfree => ?_, applyNames_eq settings trace,
    forall_inEffect_iff hkeys⟩
  · obtain ⟨pid, hpid⟩ := Option.isSome_iff_exists.1 (hkeys entry hentry)
    obtain ⟨last, -, -, hname⟩ := exists_nameFor? hentry hpid
    refine ⟨pid, last.2, hpid, hname, ?_⟩
    rw [get?_applyNames, hname, Option.some_or]
  · rw [get?_applyNames, nameFor?_eq_none hfree, Option.none_or]

/-- Settings with one process under two keys, which agree on its name. -/
def agreeing : Settings :=
  { processNames := [("01", "client"), ("1", "client"), ("2", "server")] }

/-- All names are in effect, also that of a process which had another name, and a process that no
key denotes keeps its name. -/
theorem applyNames_inEffect_agreeing :
    let trace := (Trace.load.nameProcess 1 "load").nameProcess 3 "store"
    agreeing.check = .ok () ∧
      (∀ entry ∈ agreeing.processNames, InEffect (agreeing.applyNames trace) entry) ∧
      (agreeing.applyNames trace).processNames.get? 3 = some "store" := by
  intro trace
  have hcheck : agreeing.check = .ok () := rfl
  obtain ⟨-, hothers, -, hall⟩ := applyNames_inEffect hcheck trace
  have agree : agreeing.NamesAgree := by
    unfold NamesAgree agreeing
    decide
  exact ⟨hcheck, hall.2 agree, hothers 3 (by decide)⟩

/-- Settings with one process under two keys, which give it two names. -/
def disagreeing : Settings :=
  { processNames := [("01", "client"), ("1", "server")] }

/-- The settings are in order, and the name under the first key is lost. -/
theorem not_inEffect_disagreeing :
    disagreeing.check = .ok () ∧ disagreeing.processNames.InOrder ∧
      ("01", "client") ∈ disagreeing.processNames ∧ processOf? "01" = some 1 ∧
      (disagreeing.applyNames .load).processNames = [(1, "server")] ∧
      ¬ InEffect (disagreeing.applyNames .load) ("01", "client") := by
  have hpid : processOf? "01" = some 1 := by decide
  have hmem : ("01", "client") ∈ disagreeing.processNames := by decide
  refine ⟨rfl, ?_, hmem, hpid, rfl, ?_⟩
  · unfold NameTable.InOrder disagreeing
    decide
  · rw [inEffect_applyNames_iff hmem hpid]
    decide

end EventChains.Settings
