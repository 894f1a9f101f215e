import EventChains.Proofs.Command.Gathering
import EventChains.Proofs.Disk
import EventChains.Proofs.Findings.FirstSearch
import EventChains.Proofs.Timeline.Records
import Mathlib

/-!
# Commands that fail

A command that fails writes nothing to the standard output, and nothing to any file either but in
one case: the file for a timeline is made, empty, before its chains turn out to belong to a process
that has events of its own (`run_failure`).
-/

namespace EventChains.Command

variable {environment : Environment} {disk after : Disk} {destination : Destination}
  {found : Gathered} {fault : RunFault}

/-! ## Runs of the parts of a command -/

/-- A file is written, or the disk stays as it is. -/
theorem run_attempt_writeFile (faultOf : FileFault → RunFault) (path contents : String)
    (disk : Disk) :
    (attempt faultOf ((Disk.host environment).writeFile path contents)).run.run disk =
      match disk.writeFile path contents with
      | .ok later => (.ok (), later)
      | .error fault => (.error (faultOf fault), disk) := by
  unfold attempt Disk.host Disk.change
  cases hwrite : disk.writeFile path contents with
  | ok later =>
      simp only [ExceptT.run_mk, StateT.run_bind, StateT.run_get, pure_bind, hwrite]
      rfl
  | error fault =>
      simp only [ExceptT.run_mk, StateT.run_bind, StateT.run_get, pure_bind, hwrite]
      rfl

/-- A timeline without a path is only made. -/
theorem run_writeTimeline_of_none (hpath : destination.path = none) (settings : Settings)
    (trace : Trace) (chains : List Chain) (disk : Disk) :
    (writeTimeline (Disk.host environment) settings destination trace chains).run.run disk =
      match Timeline.text trace chains (trackOf settings destination) with
      | .ok text => (.ok (text ++ "\n"), disk)
      | .error fault => (.error (.ofFault fault), disk) := by
  unfold writeTimeline
  dsimp only
  rw [hpath]
  dsimp only
  rw [run_bind, run_orFault]
  cases Timeline.text trace chains (trackOf settings destination) with
  | ok text => rfl
  | error fault => rfl

/-- The file at the path of a timeline is made before the timeline. -/
theorem run_writeTimeline_of_some {path : String} (hpath : destination.path = some path)
    (settings : Settings) (trace : Trace) (chains : List Chain) (disk : Disk) :
    (writeTimeline (Disk.host environment) settings destination trace chains).run.run disk =
      match disk.writeFile path "" with
      | .error fault => (.error (.uncreatable path fault), disk)
      | .ok created =>
          match Timeline.text trace chains (trackOf settings destination) with
          | .error fault => (.error (.ofFault fault), created)
          | .ok text =>
              match created.writeFile path text with
              | .ok written => (.ok "", written)
              | .error fault =>
                  (.error (.unwritten (text.utf8ByteSize ≤ blockSize) fault), created) := by
  unfold writeTimeline
  dsimp only
  rw [hpath]
  dsimp only
  rw [run_bind, Host.createFile, run_attempt_writeFile]
  cases disk.writeFile path "" with
  | error fault => rfl
  | ok created =>
      dsimp only
      rw [run_bind, run_orFault]
      cases Timeline.text trace chains (trackOf settings destination) with
      | error fault => rfl
      | ok text =>
          dsimp only
          rw [run_bind, run_attempt_writeFile]
          cases created.writeFile path text with
          | error fault => rfl
          | ok written => rfl

/-! ## What is left of a failure -/

/-- The chains of a timeline belong to a process that has events of its own. -/
def Gathered.Collides (found : Gathered) (destination : Destination) : Prop :=
  found.chains ≠ [] ∧ found.trace.hasProcess (trackOf found.settings destination).pid = true

/-- A timeline can be made exactly if its chains do not belong to a used process. -/
theorem text_cases (found : Gathered) (destination : Destination) :
    let text := Timeline.text found.trace found.chains (trackOf found.settings destination)
    (found.Collides destination ∧ ∃ fault, text = .error fault) ∨
      (¬ found.Collides destination ∧ ∃ made, text = .ok made) := by
  intro text
  cases htext : text with
  | error fault => exact Or.inl ⟨(Timeline.text_eq_error_iff.1 htext).2, fault, rfl⟩
  | ok made =>
      refine Or.inr ⟨fun hcollides => ?_, made, rfl⟩
      have herror := Timeline.text_eq_error_iff.2 ⟨rfl, hcollides⟩
      exact absurd (htext.symm.trans herror) (by simp)

/-- A timeline goes to a file, which is no device, at a place. -/
def GoesTo (destination : Destination) (disk : Disk) (place : FilePlace) : Prop :=
  ∃ path, destination.path = some path ∧ disk.newPlace path = .ok place ∧
    Disk.devices.lookup place = none

/-- An empty text makes a file at the place of a path, or a device there leaves the disk as it
is. -/
theorem writeFile_empty {path : String} {created : Disk}
    (h : disk.writeFile path "" = .ok created) :
    ∃ place, disk.newPlace path = .ok place ∧
      (Disk.devices.lookup place = none ∨ created = disk) := by
  obtain ⟨place, hplace, hput⟩ := bind_eq_ok_iff.1 h
  refine ⟨place, hplace, ?_⟩
  cases hdevice : Disk.devices.lookup place with
  | none => exact Or.inl rfl
  | some device => exact Or.inr (Disk.put_empty_of_device hdevice hput)

/-- A timeline that goes to a file can only fail to be made. Then the file is there, and empty. -/
theorem writeTimeline_error_of_goesTo {place : FilePlace} (hgoes : GoesTo destination disk place)
    (h : (writeTimeline (Disk.host environment) found.settings destination found.trace
      found.chains).run.run disk = (.error fault, after)) :
    found.Collides destination ∧ after = disk.putFile place "" := by
  obtain ⟨path, hpath, hnew, hfile⟩ := hgoes
  rw [run_writeTimeline_of_some hpath, Disk.writeFile_of_newPlace hnew hfile] at h
  dsimp only at h
  obtain ⟨hcollides, _, herror⟩ | ⟨_, made, hmade⟩ := text_cases found destination
  · rw [herror] at h
    exact ⟨hcollides, (congrArg Prod.snd h).symm⟩
  · -- what can be made can be written to the file
    have hwrite := Disk.writeFile_of_newPlace (Disk.newPlace_putFile hnew "") hfile made
    rw [hmade] at h
    dsimp only at h
    rw [hwrite] at h
    exact absurd (congrArg Prod.fst h) (by simp)

/-- A timeline that goes to no file changes nothing if it cannot be delivered. -/
theorem writeTimeline_error_of_not_goesTo (hnowhere : ∀ place, ¬ GoesTo destination disk place)
    (h : (writeTimeline (Disk.host environment) found.settings destination found.trace
      found.chains).run.run disk = (.error fault, after)) : after = disk := by
  cases hpath : destination.path with
  | none =>
      rw [run_writeTimeline_of_none hpath] at h
      split at h
      · exact absurd (congrArg Prod.fst h) (by simp)
      · exact (congrArg Prod.snd h).symm
  | some path =>
      rw [run_writeTimeline_of_some hpath] at h
      cases hcreate : disk.writeFile path "" with
      | error refusal =>
          rw [hcreate] at h
          exact (congrArg Prod.snd h).symm
      | ok created =>
          obtain ⟨place, hnew, hfile | hcreated⟩ := writeFile_empty hcreate
          · exact absurd ⟨path, hpath, hnew, hfile⟩ (hnowhere place)
          · -- the device has taken nothing yet, and a failure after that leaves it so
            rw [hcreate, hcreated] at h
            dsimp only at h
            split at h
            · exact (congrArg Prod.snd h).symm
            · split at h
              · exact absurd (congrArg Prod.fst h) (by simp)
              · exact (congrArg Prod.snd h).symm

/-- A timeline that cannot be delivered changes nothing, unless its chains belong to a used process
and it goes to a file. Then the file is there, and empty. -/
theorem writeTimeline_error
    (h : (writeTimeline (Disk.host environment) found.settings destination found.trace
      found.chains).run.run disk = (.error fault, after)) :
    (after = disk ∧ ∀ place, ¬ (found.Collides destination ∧ GoesTo destination disk place)) ∨
      ∃ place, (found.Collides destination ∧ GoesTo destination disk place) ∧
        after = disk.putFile place "" := by
  by_cases hgoes : ∃ place, GoesTo destination disk place
  · obtain ⟨place, hplace⟩ := hgoes
    obtain ⟨hcollides, hafter⟩ := writeTimeline_error_of_goesTo hplace h
    exact Or.inr ⟨place, ⟨hcollides, hplace⟩, hafter⟩
  · have hnowhere := not_exists.1 hgoes
    refine Or.inl ⟨writeTimeline_error_of_not_goesTo hnowhere h, fun place hplace => ?_⟩
    exact hnowhere place hplace.2

/-! ## Failures of command lines -/

/-- A command gathers chains for a used process, and its timeline goes to a file at a place. -/
def Empties (environment : Environment) (disk : Disk) (command : Command) (place : FilePlace) :
    Prop :=
  ∃ found destination, ((gather (Disk.host environment) command).run.run disk).1 = .ok found ∧
    command.job.destination? = some destination ∧
    found.Collides destination ∧ GoesTo destination disk place

/-- What a command leaves is known from its run. -/
theorem run_execute (environment : Environment) (command : Command) (disk : Disk) :
    (execute (Disk.host environment) command).run disk =
      match (perform (Disk.host environment) command).run.run disk with
      | (.ok output, later) => ({ output }, later)
      | (.error fault, later) =>
          ({ code := 1, errors := dressed environment (fault.message ++ "\n") }, later) := by
  unfold execute
  rw [StateT.run_bind]
  generalize (perform (Disk.host environment) command).run.run disk = ran
  obtain ⟨result, later⟩ := ran
  cases result with
  | ok output => rfl
  | error fault => rfl

/-- A command that fails changes nothing, unless it finds chains for a used process and its timeline
goes to a file. Then the file is there, and empty. -/
theorem perform_error {command : Command}
    (h : (perform (Disk.host environment) command).run.run disk = (.error fault, after)) :
    (after = disk ∧ ∀ place, ¬ Empties environment disk command place) ∨
      ∃ place, Empties environment disk command place ∧ after = disk.putFile place "" := by
  obtain ⟨refusal, hgather, hperform⟩ | ⟨found, hgather, hperform⟩ :=
    perform_cases environment disk command
  · rw [hperform] at h
    refine Or.inl ⟨(congrArg Prod.snd h).symm, fun place ⟨_, _, hfound, _⟩ => ?_⟩
    rw [hgather] at hfound
    contradiction
  · rw [hperform] at h
    cases hdestination : command.job.destination? with
    | none =>
        obtain ⟨output, hdeliver⟩ := deliver_of_none (Disk.host environment) hdestination found
        rw [hdeliver] at h
        exact absurd (congrArg Prod.fst h) (by simp)
    | some destination =>
        rw [deliver_of_some _ hdestination] at h
        have hempties : ∀ place, Empties environment disk command place ↔
            found.Collides destination ∧ GoesTo destination disk place := by
          intro place
          refine ⟨?_, fun hplace => ⟨found, destination, hgather, hdestination, hplace⟩⟩
          rintro ⟨other, goal, hother, hgoal, hplace⟩
          obtain rfl : found = other := Except.ok.inj (hgather.symm.trans hother)
          obtain rfl : destination = goal := Option.some.inj (hdestination.symm.trans hgoal)
          exact hplace
        simp only [hempties]
        exact writeTimeline_error h

/-- A command line fails where its command ends with a fault, and leaves what the command does. -/
theorem run_of_code_one {arguments : List String}
    (h : ((run (Disk.host environment) arguments).run disk).1.code = 1) :
    ∃ command fault after, read arguments = .ok command ∧
      (perform (Disk.host environment) command).run.run disk = (.error fault, after) ∧
      (run (Disk.host environment) arguments).run disk =
        ({ code := 1, errors := dressed environment (fault.message ++ "\n") }, after) := by
  unfold run at h ⊢
  cases hread : read arguments with
  | error stop =>
      rw [hread] at h
      cases stop with
      | help => exact absurd (show 0 = 1 from h) (by decide)
      | version => exact absurd (show 0 = 1 from h) (by decide)
      | misuse => exact absurd (show 2 = 1 from h) (by decide)
  | ok command =>
      rw [hread] at h
      dsimp only at h ⊢
      rw [run_execute] at h ⊢
      cases hperform : (perform (Disk.host environment) command).run.run disk with
      | mk result after =>
          rw [hperform] at h
          cases result with
          | ok output => exact absurd (show 0 = 1 from h) (by decide)
          | error fault => exact ⟨command, fault, after, rfl, hperform, rfl⟩

/-- A command line that fails writes nothing to the standard output. It leaves the disk as it was,
unless its command gathers chains for a used process and its timeline goes to a file. Then the file
is there, and empty. The standard output and the files that a command writes are taken to accept all
that is written to them, so no command fails for a closed pipe or a full disk. -/
theorem run_failure {arguments : List String}
    (h : ((run (Disk.host environment) arguments).run disk).1.code = 1) :
    let ran := (run (Disk.host environment) arguments).run disk
    ∃ command, read arguments = .ok command ∧ ran.1.output = "" ∧
      ((ran.2 = disk ∧ ∀ place, ¬ Empties environment disk command place) ∨
        ∃ place, Empties environment disk command place ∧ ran.2 = disk.putFile place "") := by
  intro ran
  obtain ⟨command, fault, after, hread, hperform, hrun⟩ := run_of_code_one h
  have hran : ran = ({ code := 1, errors := dressed environment (fault.message ++ "\n") }, after) :=
    hrun
  rw [hran]
  exact ⟨command, hread, rfl, perform_error hperform⟩

/-- A command line with a pattern that starts with a wildcard leaves the file for its timeline as it
was. -/
theorem run_failure_wildcard :
    let arguments := ["match", "-p", "*", "-l", "loads", "-o", "out.json"]
    let disk : Disk := { files := [(["out.json"], "old")] }
    let ran := (run (Disk.host []) arguments).run disk
    ran.1.code = 1 ∧ ran.1.output = "" ∧ ran.2 = disk ∧ ran.2.get? ["out.json"] = some "old" := by
  intro arguments disk ran
  let expected : Command :=
    { job := .search { chain := some ⟨"*", "loads"⟩ } { path := some "out.json" } }
  have hexpected : read arguments = .ok expected := by decide +kernel
  have hrefused : ((gather (Disk.host []) expected).run.run disk).1.toOption.isNone = true := by
    decide +kernel
  have hcode : ran.1.code = 1 := by decide +kernel
  obtain ⟨command, hread, houtput, ⟨hdisk, -⟩ | ⟨place, hempties, -⟩⟩ := run_failure hcode
  · refine ⟨hcode, houtput, hdisk, ?_⟩
    have hdisk : ran.2 = disk := hdisk
    rw [hdisk]
    decide
  · obtain ⟨found, _, hgather, -⟩ := hempties
    obtain rfl : expected = command := Except.ok.inj (hexpected.symm.trans hread)
    rw [hgather] at hrefused
    contradiction

/-! ## A file that is lost -/

/-- A command that gathers chains for a used process fails, and the file for its timeline is
empty. -/
theorem perform_of_empties {command : Command} {place : FilePlace}
    (h : Empties environment disk command place) : ∃ fault,
      (perform (Disk.host environment) command).run.run disk =
        (.error fault, disk.putFile place "") := by
  obtain ⟨found, destination, hgather, hdestination, hcollides, path, hpath, hnew, hfile⟩ := h
  have hmade := Disk.writeFile_of_newPlace hnew hfile ""
  obtain ⟨-, fault, herror⟩ | ⟨hunused, -⟩ := text_cases found destination
  · obtain ⟨_, hrefused, -⟩ | ⟨other, hother, hperform⟩ := perform_cases environment disk command
    · rw [hgather] at hrefused
      contradiction
    · obtain rfl : found = other := Except.ok.inj (hgather.symm.trans hother)
      refine ⟨.ofFault fault, ?_⟩
      rw [hperform, deliver_of_some _ hdestination, run_writeTimeline_of_some hpath, hmade]
      dsimp only
      rw [herror]
  · exact absurd hcollides hunused

/-- A command line whose command gathers chains for a used process fails, and the file for its
timeline is empty. -/
theorem run_of_empties {arguments : List String} {command : Command} {place : FilePlace}
    (hread : read arguments = .ok command) (h : Empties environment disk command place) :
    let ran := (run (Disk.host environment) arguments).run disk
    ran.1.code = 1 ∧ ran.1.output = "" ∧ ran.2 = disk.putFile place "" := by
  intro ran
  obtain ⟨fault, hperform⟩ := perform_of_empties h
  have hrun : ran = (execute (Disk.host environment) command).run disk := by
    show (run (Disk.host environment) arguments).run disk = _
    unfold run
    rw [hread]
  rw [hrun, run_execute, hperform]
  exact ⟨rfl, rfl, rfl⟩

/-- Naming processes builds a trace. -/
theorem built_applyNames (settings : Settings) {trace : Trace} (built : trace.Built) :
    (settings.applyNames trace).Built := by
  unfold Settings.applyNames
  induction settings.processNames generalizing trace with
  | nil => exact built
  | cons entry rest ih =>
      refine ih (?_ : (Settings.nameProcess trace entry.1 entry.2).Built)
      unfold Settings.nameProcess
      split
      · exact built.nameProcess _ _
      · exact built

theorem built_traceOf {settings : Settings} {log : String} {trace : Trace}
    (h : traceOf settings log = .ok trace) : trace.Built := by
  obtain ⟨read, hread, h⟩ := bind_eq_ok_iff.1 h
  obtain ⟨events, -, rfl⟩ := map_eq_ok_iff.1 hread
  cases h
  exact built_applyNames settings (Trace.built_ofEvents events)

/-- A log with the begin of a load. -/
def loadLog : String :=
  "[trace] ts=0 ph=B name=\"load\"\n"

/-- A disk with a file, and the log to be read. -/
def loadDisk : Disk :=
  { files := [(["out.json"], "old")], input := .ok loadLog }

/-- A search for begins of loads. -/
def loadSearch : Search :=
  ⟨some ⟨"load+", "loads"⟩, false⟩

/-- The begin of a load is found in a trace where its tokens occur. -/
theorem exists_chainsOf {trace : Trace} (built : trace.Built) (fit : trace.KindsFit)
    (h : Matching.occurrences .noRepeat Findings.loadBegin.tokens ∅ trace.placed ≠ []) :
    ∃ chains, chainsOf {} loadSearch trace = .ok chains ∧ chains ≠ [] := by
  have hspecs : specsOf {} loadSearch = .ok [⟨"loads", Findings.loadBegin⟩] := rfl
  have hchains : chainsOf {} loadSearch trace =
      .ok ((Findings.start trace .noRepeat).search Findings.loadBegin "loads").1.chains := by
    unfold chainsOf
    rw [hspecs]
    rfl
  refine ⟨_, hchains, fun hnone => h ?_⟩
  have hlength := congrArg List.length hnone
  have htokens : Findings.loadBegin.tokens = .named "load" .opening :: [] := rfl
  rw [Findings.chains_search_start built.ordered, List.length_mergeSort,
    Matching.find_eq_map_occurrences htokens
      (Pattern.separated_of_compile Findings.compile_loadBegin) fit, List.length_map] at hlength
  exact List.length_eq_zero_iff.1 hlength

/-- A command line that gives a load's own process to the chains. -/
def collidingArguments : List String :=
  ["match", "-p", "load+", "-l", "loads", "--chain-pid", "0", "-o", "out.json"]

/-- The command of that line. -/
def collidingCommand : Command where
  job := .search loadSearch { path := some "out.json", chainPid := some 0 }

theorem read_colliding : read collidingArguments = .ok collidingCommand := by
  decide +kernel

theorem empties_colliding : Empties [] loadDisk collidingCommand ["out.json"] := by
  have hread : (traceOf {} loadLog).toOption.any (fun trace => decide (trace.hasProcess 0 = true ∧
      trace.events.length ≤ UInt32.size ∧
      (Matching.occurrences .noRepeat Findings.loadBegin.tokens ∅ trace.placed).isEmpty =
        false)) = true := by
    decide +kernel
  obtain ⟨trace, htrace, hread⟩ := (Option.any_eq_true _ _).1 hread
  have htrace : traceOf {} loadLog = .ok trace := by
    cases hlog : traceOf {} loadLog with
    | error fault =>
        rw [hlog] at htrace
        contradiction
    | ok other =>
        rw [hlog] at htrace
        exact congrArg Except.ok (Option.some.inj htrace)
  obtain ⟨hused, hlength, hoccurs⟩ := of_decide_eq_true hread
  obtain ⟨chains, hchains, hfound⟩ := exists_chainsOf (built_traceOf htrace)
    (Trace.kindsFit_of_length_le hlength) (List.isEmpty_eq_false_iff.1 hoccurs)
  have hsettings : (Settings.load (Disk.host []) none).run loadDisk = (.ok {}, loadDisk) := rfl
  have hlog : (readLog (Disk.host []) none).run.run loadDisk = (.ok loadLog, loadDisk) := rfl
  have hgather : (gather (Disk.host []) collidingCommand).run.run loadDisk = _ :=
    run_gather_of_search hsettings hlog htrace rfl hchains
  refine ⟨_, _, congrArg Prod.fst hgather, rfl, ⟨hfound, hused⟩, "out.json", rfl, ?_, ?_⟩
  · decide +kernel
  · decide

/-- The command line fails, and the file that it was to write a timeline to has lost its
contents. -/
theorem run_colliding :
    let ran := (run (Disk.host []) collidingArguments).run loadDisk
    ran.1.code = 1 ∧ loadDisk.get? ["out.json"] = some "old" ∧
      ran.2.get? ["out.json"] = some "" := by
  intro ran
  obtain ⟨hcode, -, hdisk⟩ := run_of_empties read_colliding empties_colliding
  have hdisk : ran.2 = loadDisk.putFile ["out.json"] "" := hdisk
  rw [hdisk, Disk.get?_putFile]
  exact ⟨hcode, rfl, rfl⟩

end EventChains.Command
