import EventChains.Command.Run
import EventChains.Disk
import Mathlib.Data.List.Basic

/-!
# What a command reads

A command first gathers its settings, its trace and its chains, and then delivers a timeline or a
listing (`perform_eq`). All that it does on a disk until then is to read (`reads_gather`).
-/

namespace EventChains

/-- An action that leaves the disk as it is. -/
def Reads {α : Type} (action : StateM Disk α) : Prop :=
  ∀ disk, (action.run disk).2 = disk

namespace Reads

variable {α β ε : Type}

theorem pure (a : α) : Reads (Pure.pure a) :=
  fun _ => rfl

/-- Two actions that read one after the other read. -/
theorem bind {action : StateM Disk α} {next : α → StateM Disk β} (h : Reads action)
    (hnext : ∀ a, Reads (next a)) : Reads (action >>= next) := by
  intro disk
  show ((next (action.run disk).1).run (action.run disk).2).2 = disk
  rw [h, hnext]

theorem get : Reads (MonadState.get : StateM Disk Disk) :=
  fun _ => rfl

/-- What ends at the first fault reads if its parts do. -/
theorem run_bind {action : ExceptT ε (StateM Disk) α} {next : α → ExceptT ε (StateM Disk) β}
    (h : Reads action.run) (hnext : ∀ a, Reads (next a).run) : Reads (action >>= next).run := by
  rw [ExceptT.run_bind]
  refine h.bind fun result => ?_
  cases result with
  | ok a => exact hnext a
  | error fault => exact Reads.pure _

theorem run_pure (a : α) : Reads (Pure.pure a : ExceptT ε (StateM Disk) α).run :=
  fun _ => rfl

end Reads

section

variable (environment : Environment)

theorem reads_directory : Reads (Disk.host environment).directory :=
  Reads.get.bind fun _ => .pure _

theorem reads_readInput : Reads (Disk.host environment).readInput :=
  Reads.get.bind fun _ => .pure _

theorem reads_isFile (path : String) : Reads ((Disk.host environment).isFile path) :=
  Reads.get.bind fun _ => .pure _

theorem reads_readFile (path : String) : Reads ((Disk.host environment).readFile path) :=
  Reads.get.bind fun _ => .pure _

theorem reads_isThere (path : String) : Reads ((Disk.host environment).isThere path) := by
  refine (reads_readFile environment path).bind fun result => ?_
  split <;> exact .pure _

namespace Settings

theorem reads_readSource (path : String) : Reads (readSource (Disk.host environment) path) := by
  refine (reads_directory environment).bind fun directory => ?_
  refine (reads_isFile environment _).bind fun there => ?_
  dsimp only
  split
  · exact .pure _
  · split
    · exact .pure _
    · refine (reads_readFile environment _).bind fun contents => ?_
      split <;> exact .pure _

theorem reads_load (given : Option String) : Reads (load (Disk.host environment) given) := by
  have hfile : Reads (readFile (Disk.host environment) given) := by
    cases given with
    | some path => exact reads_readSource environment path
    | none =>
        unfold readFile
        dsimp only
        split
        · exact .pure _
        · refine (reads_isThere environment _).bind fun there => ?_
          split
          · exact reads_readSource environment _
          · exact .pure _
  exact hfile.bind fun _ => .pure _

end Settings

namespace Command

theorem reads_attempt {faultOf : ε → RunFault} {action : StateM Disk (Except ε α)}
    (h : Reads action) : Reads (attempt faultOf action).run :=
  h.bind fun _ => .pure _

theorem reads_orFault (result : Except Fault α) :
    Reads (orFault result : ExceptT RunFault (StateM Disk) α).run :=
  reads_attempt (.pure result)

theorem reads_readLog (log : Option String) : Reads (readLog (Disk.host environment) log).run := by
  unfold readLog
  split
  · exact reads_attempt (reads_readInput environment)
  · exact reads_attempt (reads_readFile environment _)

end Command

end

/-! ## Gathering and delivering -/

namespace Job

/-- What a command looks for. -/
def search? : Job → Option Search
  | .convert _ => none
  | .search given _ => some given
  | .list given => some given

/-- Where the timeline of a command goes. -/
def destination? : Job → Option Destination
  | .convert destination => some destination
  | .search _ destination => some destination
  | .list _ => none

end Job

namespace Command

/-- What a command has gathered before it delivers anything. -/
structure Gathered where
  settings : Settings
  trace : Trace
  chains : List Chain

section

variable {m : Type → Type} [Monad m] (host : Host m) (command : Command)

/-- Gathers settings, trace and chains. -/
def gather : ExceptT RunFault m Gathered := do
  let settings ← attempt .settings (Settings.load host command.settings)
  let trace ← orFault (traceOf settings (← readLog host command.log))
  match command.job.search? with
  | none => return ⟨settings, trace, []⟩
  | some search => return ⟨settings, trace, ← orFault (chainsOf settings search trace)⟩

/-- Delivers a timeline or a listing. -/
def deliver (found : Gathered) : ExceptT RunFault m String :=
  match command.job with
  | .convert destination | .search _ destination =>
      writeTimeline host found.settings destination found.trace found.chains
  | .list search =>
      return dressed host.environment
        (listing found.settings search found.trace found.chains)

variable {command} in
/-- A command with a destination writes its timeline there. -/
theorem deliver_of_some {destination : Destination}
    (h : command.job.destination? = some destination) (found : Gathered) :
    deliver host command found =
      writeTimeline host found.settings destination found.trace found.chains := by
  unfold deliver
  unfold Job.destination? at h
  cases hjob : command.job with
  | convert given =>
      rw [hjob] at h
      cases h
      rfl
  | search _ given =>
      rw [hjob] at h
      cases h
      rfl
  | list _ =>
      rw [hjob] at h
      contradiction

variable {command} in
/-- A command without a destination never fails once it has gathered all. -/
theorem deliver_of_none (h : command.job.destination? = none) (found : Gathered) :
    ∃ output, deliver host command found = pure output := by
  unfold deliver
  unfold Job.destination? at h
  cases hjob : command.job with
  | convert _ =>
      rw [hjob] at h
      contradiction
  | search _ _ =>
      rw [hjob] at h
      contradiction
  | list search => exact ⟨_, rfl⟩

/-- A command gathers and then delivers. -/
theorem perform_eq [LawfulMonad m] :
    perform host command = gather host command >>= deliver host command := by
  unfold perform gather deliver
  simp only [bind_assoc]
  cases command.job with
  | convert destination => simp [Job.search?]
  | search search destination => simp [Job.search?]
  | list search => simp [Job.search?]

end

/-! ## Runs on a disk -/

theorem run_bind {α β : Type} (action : ExceptT RunFault (StateM Disk) α)
    (next : α → ExceptT RunFault (StateM Disk) β) (disk : Disk) :
    (action >>= next).run.run disk =
      match action.run.run disk with
      | (.ok a, later) => (next a).run.run later
      | (.error fault, later) => (.error fault, later) := by
  rw [ExceptT.run_bind, StateT.run_bind]
  generalize action.run.run disk = ran
  obtain ⟨result, later⟩ := ran
  cases result with
  | ok a => rfl
  | error fault => rfl

theorem run_orFault {α : Type} (result : Except Fault α) (disk : Disk) :
    (orFault result : ExceptT RunFault (StateM Disk) α).run.run disk =
      match result with
      | .ok a => (.ok a, disk)
      | .error fault => (.error (.ofFault fault), disk) := by
  cases result with
  | ok a => rfl
  | error fault => rfl

/-- What is gathered by a command that looks for something. -/
theorem run_gather_of_search {environment : Environment} {disk : Disk} {command : Command}
    {search : Search} {settings : Settings} {log : String} {trace : Trace} {chains : List Chain}
    (hsettings : (Settings.load (Disk.host environment) command.settings).run disk =
      (.ok settings, disk))
    (hlog : (readLog (Disk.host environment) command.log).run.run disk = (.ok log, disk))
    (htrace : traceOf settings log = .ok trace) (hsearch : command.job.search? = some search)
    (hchains : chainsOf settings search trace = .ok chains) :
    (gather (Disk.host environment) command).run.run disk =
      (.ok ⟨settings, trace, chains⟩, disk) := by
  have hattempt : (attempt .settings (Settings.load (Disk.host environment)
      command.settings)).run.run disk = (.ok settings, disk) := by
    unfold attempt
    rw [ExceptT.run_mk, StateT.run_bind, hsettings]
    rfl
  unfold gather
  rw [run_bind, hattempt]
  dsimp only
  rw [run_bind, hlog]
  dsimp only
  rw [run_bind, run_orFault, htrace, hsearch]
  dsimp only
  rw [run_bind, run_orFault, hchains]
  rfl

variable (environment : Environment) (disk : Disk) (command : Command)

/-- Gathering leaves the disk as it is. -/
theorem reads_gather : Reads (gather (Disk.host environment) command).run := by
  unfold gather
  refine Reads.run_bind (reads_attempt (Settings.reads_load environment _)) fun settings => ?_
  refine Reads.run_bind (reads_readLog environment _) fun log => ?_
  refine Reads.run_bind (reads_orFault _) fun trace => ?_
  split
  · exact .run_pure _
  · exact Reads.run_bind (reads_orFault _) fun chains => .run_pure _

/-- A command ends with the fault of gathering, which has changed nothing, or it delivers what it
has gathered. -/
theorem perform_cases :
    (∃ fault, ((gather (Disk.host environment) command).run.run disk).1 = .error fault ∧
      (perform (Disk.host environment) command).run.run disk = (.error fault, disk)) ∨
    ∃ found, ((gather (Disk.host environment) command).run.run disk).1 = .ok found ∧
      (perform (Disk.host environment) command).run.run disk =
        (deliver (Disk.host environment) command found).run.run disk := by
  have hreads := reads_gather environment command disk
  rw [perform_eq, run_bind]
  generalize (gather (Disk.host environment) command).run.run disk = gathered at hreads
  obtain ⟨result, after⟩ := gathered
  obtain rfl : after = disk := hreads
  cases result with
  | error fault => exact Or.inl ⟨fault, rfl, rfl⟩
  | ok found => exact Or.inr ⟨found, rfl, rfl⟩

end Command

end EventChains
