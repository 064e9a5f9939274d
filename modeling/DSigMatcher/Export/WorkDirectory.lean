import DSigMatcher.Base.Text
import DSigMatcher.Framework.Steps
import Mathlib.Logic.Function.Basic

namespace DSigMatcher.Export
open DSigMatcher.Base DSigMatcher.Framework

/-- `TOOL_NAME`. -/
def toolName : Text := text "dsig_export"

/-- `UNOWNED_SWEEP_AGE_SECONDS`. -/
def unownedSweepAge : Nat := 48*3600

/-- A process; its start token tells it from earlier ones with its pid. -/
structure Process where
  pid : Nat
  start : Nat
  deriving DecidableEq

/-- What `owner.json` says. A pid that is no positive number stands as 0. -/
structure OwnerRecord where
  tool : Text
  pid : Option Nat
  start : Option Nat
  kept : Bool
  workerPid : Option Nat
  workerStart : Option Nat
  deriving DecidableEq

inductive OwnerFile
  | record (r : OwnerRecord)
  | unreadable
  deriving DecidableEq

/-- `ProcessAlive`; a start token that is not known does not count. -/
def processAlive (running : List Process) (pid : Nat) (start : Option Nat) : Bool :=
  if pid = 0 then false
  else
    match running.find? fun p => p.pid = pid with
    | none => false
    | some now => start = none || start = some now.start

/-- The record of `WriteOwner`. -/
def ownerRecord (driver : Process) (worker : Option Process) (kept : Bool) : OwnerRecord :=
  ⟨toolName, some driver.pid, some driver.start, kept, worker.map Process.pid,
    worker.map Process.start⟩

/-- A work directory, with the run it was made by. -/
structure WorkDir (ι : Type*) where
  owner : Option OwnerFile
  mtime : Nat
  run : Option ι

/-- Where `SweepWorkDirectories` is: before a name, or with what it read of the one in hand. -/
inductive Sweep (ν : Type*)
  | next (names : List ν)
  | unowned (name : ν) (names : List ν)
  | checkDriver (name : ν) (owner : OwnerRecord) (names : List ν)
  | checkWorker (name : ν) (owner : OwnerRecord) (names : List ν)
  | stale (name : ν) (names : List ν)

/-- Where a driver is between its sweep and its end. -/
inductive Stage (ν : Type*)
  | begun
  | sweeping (sweep : Sweep ν)
  | made (name : ν)
  | owned (name : ν)
  | started (name : ν) (worker : Process)
  | recorded (name : ν) (worker : Process)
  | finishing (name : ν)
  | finished

structure ExportRun (ν : Type*) where
  driver : Process
  stage : Stage ν

/-- The runs that share a work root, the directories in it, the processes that run and all that
ever ran. -/
structure WorkRoot (ι ν : Type*) where
  runs : ι → Option (ExportRun ν)
  dirs : ν → Option (WorkDir ι)
  running : List Process
  used : List Process
  now : Nat

/-- What an attempt of `RemoveTree` leaves of a directory. -/
inductive Left
  | gone
  | whole
  | bare
  deriving DecidableEq

/-- One step of a run, or of the processes around it. -/
inductive WorkEvent (ι ν : Type*)
  | begin (i : ι) (driver : Process)
  | list (i : ι) (names : List ν)
  | look (i : ι)
  | remove (i : ι) (left : Left) (again : Bool)
  | make (i : ι) (name : ν)
  | writeOwner (i : ι)
  | startWorker (i : ι) (worker : Process)
  | writeWorker (i : ι)
  | stop (i : ι)
  | discard (i : ι) (left : Left) (again : Bool)
  | keep (i : ι) (written : Bool)
  | touch (name : ν)
  | spawn (p : Process)
  | kill (p : Process)
  | tick

/-- The worker a run has started and not yet waited for. -/
def Stage.worker {ν : Type*} : Stage ν → Option Process
  | .started _ worker => some worker
  | .recorded _ worker => some worker
  | _ => none

/-- The work directory a run uses. -/
def Stage.dir {ν : Type*} : Stage ν → Option ν
  | .made name => some name
  | .owned name => some name
  | .started name _ => some name
  | .recorded name _ => some name
  | .finishing name => some name
  | _ => none

/-- The directory whose record a sweep holds. -/
def Stage.held {ν : Type*} : Stage ν → Option ν
  | .sweeping (.checkDriver name _ _) => some name
  | .sweeping (.checkWorker name _ _) => some name
  | .sweeping (.stale name _) => some name
  | _ => none

namespace WorkRoot

variable {ι ν : Type*} (s : WorkRoot ι ν)

def start (p : Process) : WorkRoot ι ν :=
  { s with running := p :: s.running, used := p :: s.used }

def stopProcess (p : Process) : WorkRoot ι ν :=
  { s with running := s.running.filter (· ≠ p) }

/-- A new process has a pid no running process has, and was never there before. -/
def fresh (p : Process) : Bool :=
  p.pid ≠ 0 && p ∉ s.used && s.running.all fun q => q.pid ≠ p.pid

/-- A run whose driver still runs. -/
def acting (i : ι) : Option (ExportRun ν) := (s.runs i).filter fun run => run.driver ∈ s.running

/-- The run that made the directory of a name. -/
def ownerOf (name : ν) : Option (ExportRun ν) :=
  match s.dirs name with
  | none => none
  | some dir =>
    match dir.run with
    | none => none
    | some j => s.runs j

theorem acting_eq_some (i : ι) (run : ExportRun ν) :
    s.acting i = some run ↔ s.runs i = some run ∧ run.driver ∈ s.running := by
  rw [acting, Option.filter_eq_some_iff, decide_eq_true_iff]

theorem ownerOf_eq_some (name : ν) (run : ExportRun ν) : s.ownerOf name = some run ↔
    ∃ dir j, s.dirs name = some dir ∧ dir.run = some j ∧ s.runs j = some run := by
  unfold ownerOf
  cases s.dirs name with
  | none => simp
  | some dir =>
    cases hj : dir.run with
    | none => simp [hj]
    | some j => simp [hj]

/-- Read `owner.json`. A directory that is kept, or whose record cannot be read, is left alone. -/
def readOwner (name : ν) (names : List ν) : Sweep ν :=
  match s.dirs name with
  | none => .next names
  | some dir =>
    match dir.owner with
    | none => .unowned name names
    | some .unreadable => .next names
    | some (.record r) =>
      if r.tool ≠ toolName ∨ r.kept = true then .next names else .checkDriver name r names

def checkAge (name : ν) (names : List ν) : Sweep ν :=
  match s.dirs name with
  | none => .next names
  | some dir => if s.now-dir.mtime < unownedSweepAge then .next names else .stale name names

def checkDriver (name : ν) (r : OwnerRecord) (names : List ν) : Sweep ν :=
  match r.pid with
  | none => .checkWorker name r names
  | some pid =>
    if processAlive s.running pid r.start then .next names else .checkWorker name r names

def checkWorker (name : ν) (r : OwnerRecord) (names : List ν) : Sweep ν :=
  match r.workerPid with
  | none => .stale name names
  | some pid =>
    if processAlive s.running pid r.workerStart then .next names else .stale name names

theorem readOwner_cases (name : ν) (names : List ν) :
    s.readOwner name names = .next names ∨ s.readOwner name names = .unowned name names ∨
    ∃ dir r, s.dirs name = some dir ∧ dir.owner = some (.record r) ∧
      s.readOwner name names = .checkDriver name r names := by
  unfold readOwner
  cases s.dirs name with
  | none => exact Or.inl rfl
  | some dir =>
    cases hw : dir.owner with
    | none => simp [hw]
    | some file =>
      cases file with
      | unreadable => simp [hw]
      | record r =>
        simp only [hw]
        split_ifs
        · exact Or.inl rfl
        · exact Or.inr (Or.inr ⟨dir, r, rfl, hw, rfl⟩)

theorem checkAge_cases (name : ν) (names : List ν) :
    s.checkAge name names = .next names ∨
    ∃ dir, s.dirs name = some dir ∧ unownedSweepAge ≤ s.now-dir.mtime ∧
      s.checkAge name names = .stale name names := by
  unfold checkAge
  cases s.dirs name with
  | none => exact Or.inl rfl
  | some dir =>
    dsimp only
    split_ifs with hage
    · exact Or.inl rfl
    · exact Or.inr ⟨dir, rfl, Nat.not_lt.mp hage, rfl⟩

theorem checkDriver_cases (name : ν) (r : OwnerRecord) (names : List ν) :
    s.checkDriver name r names = .next names ∨
    (∀ pid, r.pid = some pid → processAlive s.running pid r.start = false) ∧
      s.checkDriver name r names = .checkWorker name r names := by
  unfold checkDriver
  cases r.pid with
  | none => exact Or.inr ⟨by simp, rfl⟩
  | some pid =>
    cases halive : processAlive s.running pid r.start with
    | true => exact Or.inl (by simp [halive])
    | false => exact Or.inr ⟨by simp [halive], by simp [halive]⟩

theorem checkWorker_cases (name : ν) (r : OwnerRecord) (names : List ν) :
    s.checkWorker name r names = .next names ∨
    (∀ pid, r.workerPid = some pid → processAlive s.running pid r.workerStart = false) ∧
      s.checkWorker name r names = .stale name names := by
  unfold checkWorker
  cases r.workerPid with
  | none => exact Or.inr ⟨by simp, rfl⟩
  | some pid =>
    cases halive : processAlive s.running pid r.workerStart with
    | true => exact Or.inl (by simp [halive])
    | false => exact Or.inr ⟨by simp [halive], by simp [halive]⟩

/-- The steps of a sweep that only look. -/
def look : Sweep ν → Option (Sweep ν)
  | .next [] => none
  | .next (name::names) => some (s.readOwner name names)
  | .unowned name names => some (s.checkAge name names)
  | .checkDriver name r names => some (s.checkDriver name r names)
  | .checkWorker name r names => some (s.checkWorker name r names)
  | .stale _ _ => none

section
variable [DecidableEq ι]

def setStage (i : ι) (driver : Process) (stage : Stage ν) : WorkRoot ι ν :=
  { s with runs := Function.update s.runs i (some ⟨driver, stage⟩) }

theorem setStage_runs (i j : ι) (driver : Process) (stage : Stage ν) :
    (s.setStage i driver stage).runs j = if j = i then some ⟨driver,stage⟩ else s.runs j := by
  show Function.update s.runs i (some ⟨driver,stage⟩) j = _
  rw [Function.update_apply]

end

section
variable [DecidableEq ν]

def setDir (name : ν) (dir : Option (WorkDir ι)) : WorkRoot ι ν :=
  { s with dirs := Function.update s.dirs name dir }

theorem setDir_runs (name : ν) (dir : Option (WorkDir ι)) : (s.setDir name dir).runs = s.runs := rfl

theorem setDir_dirs (name n : ν) (dir : Option (WorkDir ι)) :
    (s.setDir name dir).dirs n = if n = name then dir else s.dirs n := by
  show Function.update s.dirs name dir n = _
  rw [Function.update_apply]

/-- What is left of a directory after an attempt to remove it. -/
def removeTree (name : ν) (left : Left) : WorkRoot ι ν :=
  match left with
  | .gone => s.setDir name none
  | .whole => s
  | .bare => s.setDir name ((s.dirs name).map fun dir => ⟨none, s.now, dir.run⟩)

/-- `WriteOwner`; none when the directory is not there. -/
def writeRecord (name : ν) (r : OwnerRecord) : Option (WorkRoot ι ν) :=
  (s.dirs name).map fun dir => s.setDir name (some ⟨some (.record r), s.now, dir.run⟩)

end

end WorkRoot

/-- One event; none where it is not possible. -/
def WorkRoot.step {ι ν : Type*} [DecidableEq ι] [DecidableEq ν] (s : WorkRoot ι ν) :
    WorkEvent ι ν → Option (WorkRoot ι ν)
  | .begin i driver =>
    if s.runs i = none ∧ s.fresh driver = true then some ((s.start driver).setStage i driver .begun)
    else none
  | .list i names =>
    match s.acting i with
    | some ⟨driver, .begun⟩ =>
      if names.all fun name => (s.dirs name).isSome then
        some (s.setStage i driver (.sweeping (.next names)))
      else none
    | _ => none
  | .look i =>
    match s.acting i with
    | some ⟨driver, .sweeping sweep⟩ =>
      (s.look sweep).map fun sweep => s.setStage i driver (.sweeping sweep)
    | _ => none
  | .remove i left again =>
    match s.acting i with
    | some ⟨driver, .sweeping (.stale name names)⟩ =>
      let sweep := if left ≠ .gone ∧ again = true then .stale name names else .next names
      some ((s.removeTree name left).setStage i driver (.sweeping sweep))
    | _ => none
  | .make i name =>
    match s.acting i with
    | some ⟨driver, .sweeping (.next [])⟩ =>
      match s.dirs name with
      | none => some ((s.setDir name (some ⟨none, s.now, some i⟩)).setStage i driver (.made name))
      | some _ => none
    | _ => none
  | .writeOwner i =>
    match s.acting i with
    | some ⟨driver, .made name⟩ =>
      (s.writeRecord name (ownerRecord driver none false)).map fun t =>
        t.setStage i driver (.owned name)
    | _ => none
  | .startWorker i worker =>
    match s.acting i with
    | some ⟨driver, .owned name⟩ =>
      if s.fresh worker = true then
        some ((s.start worker).setStage i driver (.started name worker))
      else none
    | _ => none
  | .writeWorker i =>
    match s.acting i with
    | some ⟨driver, .started name worker⟩ =>
      (s.writeRecord name (ownerRecord driver (some worker) false)).map fun t =>
        t.setStage i driver (.recorded name worker)
    | _ => none
  | .stop i =>
    match s.acting i with
    | none => none
    | some run =>
      match run.stage.dir with
      | none => none
      | some name =>
        -- the worker is killed and waited for first
        if run.stage.worker.any (· ∈ s.running) then none
        else some (s.setStage i run.driver (.finishing name))
  | .discard i left again =>
    match s.acting i with
    | some ⟨driver, .finishing name⟩ =>
      let stage := if left ≠ .gone ∧ again = true then .finishing name else .finished
      some ((s.removeTree name left).setStage i driver stage)
    | _ => none
  | .keep i written =>
    match s.acting i with
    | some ⟨driver, .finishing name⟩ =>
      if written then
        (s.writeRecord name (ownerRecord driver none true)).map fun t =>
          t.setStage i driver .finished
      else some (s.setStage i driver .finished)
    | _ => none
  | .touch name =>
    (s.dirs name).map fun dir => s.setDir name (some ⟨dir.owner, s.now, dir.run⟩)
  | .spawn p => if s.fresh p = true then some (s.start p) else none
  | .kill p => some (s.stopProcess p)
  | .tick => some { s with now := s.now+1 }

end DSigMatcher.Export
