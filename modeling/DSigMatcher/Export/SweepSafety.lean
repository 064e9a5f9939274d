import DSigMatcher.Export.WorkDirectory

namespace DSigMatcher.Export
open DSigMatcher.Base DSigMatcher.Framework

variable {ι ν : Type*}

/-- The record names a process as its driver, or as its worker. -/
def OwnerRecord.namesDriver (r : OwnerRecord) (p : Process) : Prop :=
  r.pid = some p.pid ∧ r.start = some p.start

def OwnerRecord.namesWorker (r : OwnerRecord) (p : Process) : Prop :=
  r.workerPid = some p.pid ∧ r.workerStart = some p.start

section
variable (running : List Process) (run : ExportRun ν)

/-- A process of the run still runs. -/
def InUse : Prop := run.driver ∈ running ∨ ∃ p, run.stage.worker = some p ∧ p ∈ running

/-- What a record must say of the run that made its directory: its driver, and where that one is
gone the worker that still runs. -/
structure Covered (r : OwnerRecord) : Prop where
  driver : r.namesDriver run.driver
  worker : run.driver ∈ running ∨
    ∀ p, run.stage.worker = some p → p ∈ running → r.namesWorker p

/-- What a sweep knows of the run that made the directory in its hand. -/
def Known : Stage ν → Prop
  | .sweeping (.checkDriver _ r _) => Covered running run r
  | .sweeping (.checkWorker _ r _) => run.driver ∉ running ∧ Covered running run r
  | .sweeping (.stale _ _) => ¬ InUse running run
  | _ => True

end

/-- Processes are told apart by their pids, a directory a live driver works in is its own, and
every record, on disk or in a sweep's hand, says what it must. -/
structure Sound (s : WorkRoot ι ν) : Prop where
  pids : ∀ p ∈ s.running, p.pid ≠ 0 ∧ ∀ q ∈ s.running, q.pid = p.pid → q = p
  used : ∀ p ∈ s.running, p ∈ s.used
  drivers : ∀ i run, s.runs i = some run → run.driver ∈ s.used ∧
    ∀ p, run.stage.worker = some p → p ∈ s.used
  made : ∀ name dir j, s.dirs name = some dir → dir.run = some j → (s.runs j).isSome
  own : ∀ i run name, s.runs i = some run → run.driver ∈ s.running → run.stage.dir = some name →
    ∃ dir, s.dirs name = some dir ∧ dir.run = some i
  disk : ∀ name dir r run, s.dirs name = some dir → dir.owner = some (.record r) →
    s.ownerOf name = some run → Covered s.running run r
  held : ∀ i sweeper name run, s.runs i = some sweeper → sweeper.driver ∈ s.running →
    sweeper.stage.held = some name → s.ownerOf name = some run →
    Known s.running run sweeper.stage

/-- `run` goes on to `run'`: the same driver, and a new worker only while it runs. -/
def GoesOn (running : List Process) (run run' : ExportRun ν) : Prop :=
  run'.driver = run.driver ∧
    ∀ p, run'.stage.worker = some p → run.stage.worker = some p ∨ run.driver ∈ running

section
variable {running : List Process} {run run' : ExportRun ν} {r : OwnerRecord}

theorem GoesOn.refl (running : List Process) (run : ExportRun ν) : GoesOn running run run := by
  refine ⟨rfl, ?_⟩
  intro p hp
  exact Or.inl hp

theorem Covered.goesOn (h : Covered running run r) (hgo : GoesOn running run run') :
    Covered running run' r := by
  obtain ⟨hdriver, hworker⟩ := hgo
  refine ⟨?_, ?_⟩
  · rw [hdriver]
    exact h.driver
  · rw [hdriver]
    by_cases hd : run.driver ∈ running
    · exact Or.inl hd
    · apply Or.inr
      intro p hp hrunning
      have hp' := (hworker p hp).resolve_right hd
      exact h.worker.resolve_left hd p hp' hrunning

theorem InUse.goesOn (h : ¬ InUse running run) (hgo : GoesOn running run run') :
    ¬ InUse running run' := by
  obtain ⟨hdriver, hworker⟩ := hgo
  have hd : run.driver ∉ running := fun hd => h (Or.inl hd)
  intro huse
  rcases huse with hd' | ⟨p, hp, hrunning⟩
  · rw [hdriver] at hd'
    exact hd hd'
  · have hp' := (hworker p hp).resolve_right hd
    exact h (Or.inr ⟨p, hp', hrunning⟩)

theorem Known.goesOn {stage : Stage ν} (h : Known running run stage)
    (hgo : GoesOn running run run') : Known running run' stage := by
  unfold Known at h ⊢
  split at h
  · exact Covered.goesOn h hgo
  · refine ⟨?_, Covered.goesOn h.2 hgo⟩
    rw [hgo.1]
    exact h.1
  · exact InUse.goesOn h hgo
  · trivial

/-- A run whose processes run on, or are gone, as before. -/
theorem Covered.same {running' : List Process} (h : Covered running run r)
    (hdriver : run.driver ∈ running' ↔ run.driver ∈ running)
    (hworker : ∀ p, run.stage.worker = some p → p ∈ running' → p ∈ running) :
    Covered running' run r := by
  refine ⟨h.driver, ?_⟩
  rw [hdriver]
  apply h.worker.imp id
  intro hnames p hp hrunning
  exact hnames p hp (hworker p hp hrunning)

theorem Known.same {running' : List Process} {stage : Stage ν} (h : Known running run stage)
    (hdriver : run.driver ∈ running' ↔ run.driver ∈ running)
    (hworker : ∀ p, run.stage.worker = some p → p ∈ running' → p ∈ running) :
    Known running' run stage := by
  unfold Known at h ⊢
  split at h
  · exact Covered.same h hdriver hworker
  · exact ⟨fun hd => h.1 (hdriver.mp hd), Covered.same h.2 hdriver hworker⟩
  · intro huse
    rcases huse with hd | ⟨p, hp, hrunning⟩
    · exact h (Or.inl (hdriver.mp hd))
    · exact h (Or.inr ⟨p, hp, hworker p hp hrunning⟩)
  · trivial

end

/-- A driver may die unless its worker runs on while the record on disk, or one a sweep is about to
check, does not name it. -/
def MayDie (s : WorkRoot ι ν) (p : Process) : Prop :=
  ∀ j run worker, s.runs j = some run → run.driver = p → p ∈ s.running →
    run.stage.worker = some worker → worker ∈ s.running →
    (∀ name dir r, s.dirs name = some dir → dir.run = some j → dir.owner = some (.record r) →
      r.namesWorker worker) ∧
    ∀ i sweeper name names r dir, s.runs i = some sweeper → sweeper.driver ∈ s.running →
      sweeper.stage = .sweeping (.checkDriver name r names) → s.dirs name = some dir →
      dir.run = some j → r.namesWorker worker

/-- What no event of a run may do: kill a driver whose worker is not on record, make a directory
under a name whose record a sweep holds, and find a directory in use without a record too old. -/
def Allowed (s : WorkRoot ι ν) : WorkEvent ι ν → Prop
  | .kill p => MayDie s p
  | .make _ name => ∀ i sweeper, s.runs i = some sweeper → sweeper.driver ∈ s.running →
      sweeper.stage.held ≠ some name
  | .look i => ∀ sweeper name names dir run, s.runs i = some sweeper →
      sweeper.stage = .sweeping (.unowned name names) → s.dirs name = some dir →
      s.ownerOf name = some run → InUse s.running run → s.now-dir.mtime < unownedSweepAge
  | _ => True

namespace Sound

variable {s : WorkRoot ι ν}

/-- A new process has nothing to do with the runs so far. -/
theorem start (h : Sound s) {p : Process} (hp : s.fresh p = true) : Sound (s.start p) := by
  simp only [WorkRoot.fresh, Bool.and_eq_true, decide_eq_true_iff, List.all_eq_true] at hp
  obtain ⟨⟨hpid, hnew⟩, hfree⟩ := hp
  have hdriver : ∀ i run, s.runs i = some run →
      (run.driver ∈ (s.start p).running ↔ run.driver ∈ s.running) := by
    intro i run hi
    show run.driver ∈ p :: s.running ↔ _
    rw [List.mem_cons, or_iff_right]
    rintro rfl
    exact hnew (h.drivers i run hi).1
  have hworker : ∀ i run, s.runs i = some run → ∀ q, run.stage.worker = some q →
      q ∈ (s.start p).running → q ∈ s.running := by
    intro i run hi q hq hrunning
    rcases List.mem_cons.mp hrunning with rfl | hrunning
    · exact absurd ((h.drivers i run hi).2 q hq) hnew
    · exact hrunning
  refine ⟨?_, ?_, ?_, h.made, ?_, ?_, ?_⟩
  · intro q hq
    rcases List.mem_cons.mp hq with rfl | hold
    · refine ⟨hpid, ?_⟩
      intro q' hq' he
      rcases List.mem_cons.mp hq' with rfl | hold'
      · rfl
      · exact absurd he (hfree q' hold')
    · refine ⟨(h.pids q hold).1, ?_⟩
      intro q' hq' he
      rcases List.mem_cons.mp hq' with rfl | hold'
      · exact absurd he.symm (hfree q hold)
      · exact (h.pids q hold).2 q' hold' he
  · intro q hq
    rcases List.mem_cons.mp hq with rfl | hq
    · exact List.mem_cons_self
    · exact List.mem_cons_of_mem _ (h.used q hq)
  · intro i run hi
    refine ⟨List.mem_cons_of_mem _ (h.drivers i run hi).1, ?_⟩
    intro q hq
    exact List.mem_cons_of_mem _ ((h.drivers i run hi).2 q hq)
  · intro i run name hi hrunning hdir
    exact h.own i run name hi ((hdriver i run hi).mp hrunning) hdir
  · intro name dir r run hd hr ho
    obtain ⟨-, j, -, -, hj⟩ := (WorkRoot.ownerOf_eq_some _ _ _).mp ho
    exact (h.disk name dir r run hd hr ho).same (hdriver j run hj) (hworker j run hj)
  · intro i sweeper name run hi hrunning hheld ho
    obtain ⟨-, j, -, -, hj⟩ := (WorkRoot.ownerOf_eq_some _ _ _).mp ho
    have hknown := h.held i sweeper name run hi ((hdriver i sweeper hi).mp hrunning) hheld ho
    exact hknown.same (hdriver j run hj) (hworker j run hj)

theorem stopProcess (h : Sound s) {p : Process} (hp : MayDie s p) : Sound (s.stopProcess p) := by
  have hrunning : ∀ q, q ∈ (s.stopProcess p).running ↔ q ∈ s.running ∧ q ≠ p := by
    intro q
    show q ∈ s.running.filter (· ≠ p) ↔ _
    rw [List.mem_filter, decide_eq_true_iff]
  have hsame : ∀ run : ExportRun ν, ¬ (run.driver = p ∧ p ∈ s.running) →
      (run.driver ∈ (s.stopProcess p).running ↔ run.driver ∈ s.running) := by
    intro run hne
    rw [hrunning]
    constructor
    · exact fun hd => hd.1
    · intro hd
      refine ⟨hd, ?_⟩
      rintro rfl
      exact hne ⟨rfl, hd⟩
  have hworker : ∀ run : ExportRun ν, ∀ q, run.stage.worker = some q →
      q ∈ (s.stopProcess p).running → q ∈ s.running := by
    intro run q _ hq
    exact ((hrunning q).mp hq).1
  refine ⟨?_, ?_, h.drivers, h.made, ?_, ?_, ?_⟩
  · intro q hq
    have hq' := ((hrunning q).mp hq).1
    refine ⟨(h.pids q hq').1, ?_⟩
    intro q' hq''
    exact (h.pids q hq').2 q' ((hrunning q').mp hq'').1
  · intro q hq
    exact h.used q ((hrunning q).mp hq).1
  · intro i run name hi hdriver hdir
    exact h.own i run name hi ((hrunning _).mp hdriver).1 hdir
  · intro name dir r run hd hr ho
    have hcovered := h.disk name dir r run hd hr ho
    by_cases hdies : run.driver = p ∧ p ∈ s.running
    · obtain ⟨d, j, hd', hj, hrun⟩ := (s.ownerOf_eq_some _ _).mp ho
      obtain rfl : dir = d := Option.some.inj (hd.symm.trans hd')
      refine ⟨hcovered.driver, Or.inr ?_⟩
      intro worker hw hwr
      have hmay := hp j run worker hrun hdies.1 hdies.2 hw (hworker run worker hw hwr)
      exact hmay.1 name dir r hd hj hr
    · exact hcovered.same (hsame run hdies) (hworker run)
  · intro i sweeper name run hi hdriver hheld ho
    have hknown := h.held i sweeper name run hi ((hrunning _).mp hdriver).1 hheld ho
    by_cases hdies : run.driver = p ∧ p ∈ s.running
    · have halive : run.driver ∈ s.running := hdies.1 ▸ hdies.2
      obtain ⟨d, j, hd, hj, hrun⟩ := (s.ownerOf_eq_some _ _).mp ho
      cases hstage : sweeper.stage with
      | sweeping sweep =>
        rw [hstage] at hknown hheld
        cases sweep with
        | checkDriver n r names =>
          obtain rfl := Option.some.inj hheld
          have hcovered : Covered s.running run r := hknown
          refine ⟨hcovered.driver, Or.inr ?_⟩
          intro worker hw hwr
          have hmay := hp j run worker hrun hdies.1 hdies.2 hw (hworker run worker hw hwr)
          exact hmay.2 i sweeper n names r d hi ((hrunning _).mp hdriver).1 hstage hd hj
        | checkWorker n r names => exact absurd halive hknown.1
        | stale n names => exact absurd (Or.inl halive) hknown
        | _ => trivial
      | _ => trivial
    · exact hknown.same (hsame run hdies) (hworker run)

/-- A process that runs is found by its pid and its token. -/
theorem processAlive_of_mem (h : Sound s) {p : Process} (hp : p ∈ s.running) :
    processAlive s.running p.pid (some p.start) = true := by
  unfold processAlive
  rw [if_neg (h.pids p hp).1]
  cases hf : s.running.find? fun q => q.pid = p.pid with
  | none =>
    have hnone := List.find?_eq_none.mp hf p hp
    simp at hnone
  | some q =>
    have hpid : q.pid = p.pid := by simpa using List.find?_some hf
    have he := (h.pids p hp).2 q (List.mem_of_find?_eq_some hf) hpid
    simp [he]

/-- What a sweep finds out by looking is known. -/
theorem look_known (h : Sound s) {i : ι} {sweeper : ExportRun ν} {sweep sweep' : Sweep ν}
    {name : ν} {run : ExportRun ν} (hallowed : Allowed s (.look i)) (hi : s.runs i = some sweeper)
    (hdriver : sweeper.driver ∈ s.running) (hstage : sweeper.stage = .sweeping sweep)
    (hlook : s.look sweep = some sweep') (hheld : (Stage.sweeping sweep').held = some name)
    (ho : s.ownerOf name = some run) : Known s.running run (.sweeping sweep') := by
  cases sweep with
  | next names =>
    cases names with
    | nil => simp [WorkRoot.look] at hlook
    | cons n names =>
      obtain rfl := Option.some.inj hlook
      rcases s.readOwner_cases n names with he | he | ⟨dir, r, hd, hw, he⟩
      · rw [he]
        trivial
      · rw [he]
        trivial
      · rw [he] at hheld ⊢
        obtain rfl := Option.some.inj hheld
        exact h.disk n dir r run hd hw ho
  | unowned n names =>
    obtain rfl := Option.some.inj hlook
    rcases s.checkAge_cases n names with he | ⟨dir, hd, hage, he⟩
    · rw [he]
      trivial
    · rw [he] at hheld ⊢
      obtain rfl := Option.some.inj hheld
      intro huse
      have hyoung := hallowed sweeper n names dir run hi hstage hd ho huse
      omega
  | checkDriver n r names =>
    obtain rfl := Option.some.inj hlook
    rcases s.checkDriver_cases n r names with he | ⟨hdead, he⟩
    · rw [he]
      trivial
    · rw [he] at hheld ⊢
      obtain rfl := Option.some.inj hheld
      have hknown := h.held i sweeper n run hi hdriver (by rw [hstage]; rfl) ho
      rw [hstage] at hknown
      have hcovered : Covered s.running run r := hknown
      refine ⟨?_, hcovered⟩
      intro hmem
      have halive := h.processAlive_of_mem hmem
      rw [← hcovered.driver.2, hdead _ hcovered.driver.1] at halive
      exact Bool.false_ne_true halive
  | checkWorker n r names =>
    obtain rfl := Option.some.inj hlook
    rcases s.checkWorker_cases n r names with he | ⟨hdead, he⟩
    · rw [he]
      trivial
    · rw [he] at hheld ⊢
      obtain rfl := Option.some.inj hheld
      have hknown := h.held i sweeper n run hi hdriver (by rw [hstage]; rfl) ho
      rw [hstage] at hknown
      obtain ⟨hgone, hcovered⟩ : run.driver ∉ s.running ∧ Covered s.running run r := hknown
      rintro (hd | ⟨p, hp, hmem⟩)
      · exact hgone hd
      · -- a worker that still runs is on record, so it would have been found
        have hnames := hcovered.worker.resolve_left hgone p hp hmem
        have halive := h.processAlive_of_mem hmem
        rw [← hnames.2, hdead _ hnames.1] at halive
        exact Bool.false_ne_true halive
  | stale n names => simp [WorkRoot.look] at hlook

/-- Where a sweep is about to remove a directory, no process of its run is left. -/
theorem stale_unused (h : Sound s) {i : ι} {driver : Process} {name : ν} {names : List ν}
    {run : ExportRun ν} (hacting : s.acting i = some ⟨driver,.sweeping (.stale name names)⟩)
    (ho : s.ownerOf name = some run) : ¬ InUse s.running run := by
  obtain ⟨hrun, hdriver⟩ := (s.acting_eq_some _ _).mp hacting
  exact h.held i _ name run hrun hdriver rfl ho

section
variable [DecidableEq ι]

/-- One run goes on: what it works in is its own, and what its sweep holds is known. -/
theorem setStage (h : Sound s) {i : ι} {run : ExportRun ν} {stage : Stage ν}
    (hrun : s.runs i = some run) (hgo : GoesOn s.running run ⟨run.driver,stage⟩)
    (hused : ∀ p, stage.worker = some p → p ∈ s.used)
    (hown : ∀ name, run.driver ∈ s.running → stage.dir = some name →
      ∃ dir, s.dirs name = some dir ∧ dir.run = some i)
    (hheld : ∀ name owner, run.driver ∈ s.running → stage.held = some name →
      s.ownerOf name = some owner → Known s.running owner stage) :
    Sound (s.setStage i run.driver stage) := by
  have hruns : ∀ j k, (s.setStage i run.driver stage).runs j = some k →
      (j = i ∧ k = ⟨run.driver,stage⟩) ∨ (j ≠ i ∧ s.runs j = some k) := by
    intro j k hk
    rw [WorkRoot.setStage_runs] at hk
    split_ifs at hk with hj
    · exact Or.inl ⟨hj, (Option.some.inj hk).symm⟩
    · exact Or.inr ⟨hj, hk⟩
  have howner : ∀ name owner, (s.setStage i run.driver stage).ownerOf name = some owner →
      ∃ old, s.ownerOf name = some old ∧ GoesOn s.running old owner := by
    intro name owner ho
    obtain ⟨dir, j, hd, hj, hk⟩ := (WorkRoot.ownerOf_eq_some _ _ _).mp ho
    rcases hruns j owner hk with ⟨rfl, rfl⟩ | ⟨-, hk⟩
    · exact ⟨run, (s.ownerOf_eq_some _ _).mpr ⟨dir, j, hd, hj, hrun⟩, hgo⟩
    · exact ⟨owner, (s.ownerOf_eq_some _ _).mpr ⟨dir, j, hd, hj, hk⟩, GoesOn.refl _ _⟩
  refine ⟨h.pids, h.used, ?_, ?_, ?_, ?_, ?_⟩
  · intro j k hk
    rcases hruns j k hk with ⟨-, rfl⟩ | ⟨-, hk⟩
    · exact ⟨(h.drivers i run hrun).1, hused⟩
    · exact h.drivers j k hk
  · intro name dir j hd hj
    have hold := h.made name dir j hd hj
    rw [WorkRoot.setStage_runs]
    split_ifs
    · rfl
    · exact hold
  · intro j k name hk hdriver hdir
    rcases hruns j k hk with ⟨rfl, rfl⟩ | ⟨-, hk⟩
    · exact hown name hdriver hdir
    · exact h.own j k name hk hdriver hdir
  · intro name dir r owner hd hr ho
    obtain ⟨old, hold, hgo'⟩ := howner name owner ho
    exact (h.disk name dir r old hd hr hold).goesOn hgo'
  · intro j k name owner hk hdriver hheld' ho
    obtain ⟨old, hold, hgo'⟩ := howner name owner ho
    rcases hruns j k hk with ⟨-, rfl⟩ | ⟨-, hk⟩
    · exact (hheld name old hdriver hheld' hold).goesOn hgo'
    · exact (h.held j k name old hk hdriver hheld' hold).goesOn hgo'

/-- A stage of a live driver without a worker, a directory or a record in hand. -/
theorem idleStage (h : Sound s) {i : ι} {run : ExportRun ν} {stage : Stage ν} (hrun : s.runs i = some run)
    (hworker : stage.worker = none) (hdir : stage.dir = none)
    (hheld : ∀ name owner, stage.held = some name → s.ownerOf name = some owner →
      Known s.running owner stage) : Sound (s.setStage i run.driver stage) := by
  apply h.setStage hrun
  · refine ⟨rfl, ?_⟩
    simp [hworker]
  · simp [hworker]
  · simp [hdir]
  · intro name owner _ hn ho
    exact hheld name owner hn ho

/-- A new run joins. -/
theorem enter (h : Sound s) {i : ι} {driver : Process} (hrun : s.runs i = none)
    (hused : driver ∈ s.used) : Sound (s.setStage i driver .begun) := by
  have hruns : ∀ j k, (s.setStage i driver .begun).runs j = some k →
      (j = i ∧ k = ⟨driver,.begun⟩) ∨ (j ≠ i ∧ s.runs j = some k) := by
    intro j k hk
    rw [WorkRoot.setStage_runs] at hk
    split_ifs at hk with hj
    · exact Or.inl ⟨hj, (Option.some.inj hk).symm⟩
    · exact Or.inr ⟨hj, hk⟩
  have howner : ∀ name owner, (s.setStage i driver .begun).ownerOf name = some owner →
      s.ownerOf name = some owner := by
    intro name owner ho
    obtain ⟨dir, j, hd, hj, hk⟩ := (WorkRoot.ownerOf_eq_some _ _ _).mp ho
    rcases hruns j owner hk with ⟨rfl, -⟩ | ⟨-, hk⟩
    · have hsome := h.made name dir j hd hj
      rw [hrun] at hsome
      simp at hsome
    · exact (s.ownerOf_eq_some _ _).mpr ⟨dir, j, hd, hj, hk⟩
  refine ⟨h.pids, h.used, ?_, ?_, ?_, ?_, ?_⟩
  · intro j k hk
    rcases hruns j k hk with ⟨-, rfl⟩ | ⟨-, hk⟩
    · refine ⟨hused, ?_⟩
      intro p hp
      simp [Stage.worker] at hp
    · exact h.drivers j k hk
  · intro name dir j hd hj
    have hold := h.made name dir j hd hj
    rw [WorkRoot.setStage_runs]
    split_ifs
    · rfl
    · exact hold
  · intro j k name hk hdriver hdir
    rcases hruns j k hk with ⟨-, rfl⟩ | ⟨-, hk⟩
    · simp [Stage.dir] at hdir
    · exact h.own j k name hk hdriver hdir
  · intro name dir r owner hd hr ho
    exact h.disk name dir r owner hd hr (howner name owner ho)
  · intro j k name owner hk hdriver hheld ho
    rcases hruns j k hk with ⟨-, rfl⟩ | ⟨-, hk⟩
    · simp [Stage.held] at hheld
    · exact h.held j k name owner hk hdriver hheld (howner name owner ho)

end

section
variable [DecidableEq ν]

/-- One directory changes: no live driver loses its own, its record says what it must, and what
the sweeps hold of it is known. -/
theorem setDir (h : Sound s) {name : ν} {dir : Option (WorkDir ι)}
    (hown : ∀ i run, s.runs i = some run → run.driver ∈ s.running → run.stage.dir = some name →
      ∃ d, dir = some d ∧ d.run = some i)
    (hmade : ∀ d j, dir = some d → d.run = some j → (s.runs j).isSome)
    (hdisk : ∀ d r j run, dir = some d → d.owner = some (.record r) → d.run = some j →
      s.runs j = some run → Covered s.running run r)
    (hheld : ∀ d j run i sweeper, dir = some d → d.run = some j → s.runs j = some run →
      s.runs i = some sweeper → sweeper.driver ∈ s.running → sweeper.stage.held = some name →
      Known s.running run sweeper.stage) :
    Sound (s.setDir name dir) := by
  have hdirs : ∀ n d, (s.setDir name dir).dirs n = some d →
      (n = name ∧ dir = some d) ∨ (n ≠ name ∧ s.dirs n = some d) := by
    intro n d hd
    rw [WorkRoot.setDir_dirs] at hd
    split_ifs at hd with hn
    · exact Or.inl ⟨hn, hd⟩
    · exact Or.inr ⟨hn, hd⟩
  refine ⟨h.pids, h.used, h.drivers, ?_, ?_, ?_, ?_⟩
  · intro n d j hd hj
    rcases hdirs n d hd with ⟨-, hd⟩ | ⟨-, hd⟩
    · exact hmade d j hd hj
    · exact h.made n d j hd hj
  · intro i run n hrun hdriver hdir
    rw [WorkRoot.setDir_dirs]
    split_ifs with hn
    · rw [hn] at hdir
      exact hown i run hrun hdriver hdir
    · exact h.own i run n hrun hdriver hdir
  · intro n d r run hd hr ho
    obtain ⟨d', j, hd', hj, hrun⟩ := (WorkRoot.ownerOf_eq_some _ _ _).mp ho
    rw [hd] at hd'
    obtain rfl := Option.some.inj hd'
    rcases hdirs n d hd with ⟨-, hdir⟩ | ⟨-, hold⟩
    · exact hdisk d r j run hdir hr hj hrun
    · exact h.disk n d r run hold hr ((s.ownerOf_eq_some _ _).mpr ⟨d, j, hold, hj, hrun⟩)
  · intro i sweeper n run hsweeper hdriver hheld' ho
    obtain ⟨d, j, hd, hj, hrun⟩ := (WorkRoot.ownerOf_eq_some _ _ _).mp ho
    rcases hdirs n d hd with ⟨rfl, hdir⟩ | ⟨-, hold⟩
    · exact hheld d j run i sweeper hdir hj hrun hsweeper hdriver hheld'
    · exact h.held i sweeper n run hsweeper hdriver hheld'
        ((s.ownerOf_eq_some _ _).mpr ⟨d, j, hold, hj, hrun⟩)

/-- A directory changes but stays with its run: its record says what it must. -/
theorem rewriteDir (h : Sound s) {name : ν} {dir dir' : WorkDir ι} (hd : s.dirs name = some dir)
    (hrun : dir'.run = dir.run)
    (hdisk : ∀ r run, dir'.owner = some (.record r) → s.ownerOf name = some run →
      Covered s.running run r) : Sound (s.setDir name (some dir')) := by
  have howner : ∀ d j run, some dir' = some d → d.run = some j → s.runs j = some run →
      s.ownerOf name = some run := by
    intro d j run he hj hk
    obtain rfl := Option.some.inj he
    rw [hrun] at hj
    exact (s.ownerOf_eq_some _ _).mpr ⟨dir, j, hd, hj, hk⟩
  apply h.setDir
  · intro i run hi hdriver hdir
    obtain ⟨d, hd', hj⟩ := h.own i run name hi hdriver hdir
    rw [hd] at hd'
    obtain rfl := Option.some.inj hd'
    exact ⟨dir', rfl, hrun.trans hj⟩
  · intro d j he hj
    obtain rfl := Option.some.inj he
    rw [hrun] at hj
    exact h.made name dir j hd hj
  · intro d r j run he hr hj hk
    have ho := howner d j run he hj hk
    obtain rfl := Option.some.inj he
    exact hdisk r run hr ho
  · intro d j run i sweeper he hj hk hi hdriver hheld
    exact h.held i sweeper name run hi hdriver hheld (howner d j run he hj hk)

/-- A directory goes that no live driver works in. -/
theorem dropDir (h : Sound s) {name : ν}
    (hown : ∀ i run, s.runs i = some run → run.driver ∈ s.running → run.stage.dir ≠ some name) :
    Sound (s.setDir name none) := by
  apply h.setDir
  · intro i run hi hdriver hdir
    exact absurd hdir (hown i run hi hdriver)
  · simp
  · simp
  · simp

/-- `RemoveTree` on a directory no live driver works in, or that it leaves behind. -/
theorem removeTree (h : Sound s) {name : ν} (left : Left)
    (hown : left = .gone → ∀ i run, s.runs i = some run → run.driver ∈ s.running →
      run.stage.dir ≠ some name) : Sound (s.removeTree name left) := by
  cases left with
  | gone => exact h.dropDir (hown rfl)
  | whole => exact h
  | bare =>
    show Sound (s.setDir name ((s.dirs name).map fun dir => ⟨none, s.now, dir.run⟩))
    cases hd : s.dirs name with
    | none =>
      apply h.dropDir
      intro i run hi hdriver hdir
      obtain ⟨dir, hd', -⟩ := h.own i run name hi hdriver hdir
      rw [hd] at hd'
      simp at hd'
    | some dir =>
      apply h.rewriteDir hd
      · rfl
      · simp

/-- `WriteOwner` of a live driver in its own directory. -/
theorem writeRecord {t : WorkRoot ι ν} {i : ι} (h : Sound s) {run : ExportRun ν} {name : ν} {worker : Option Process}
    {kept : Bool} (hrun : s.runs i = some run) (hdriver : run.driver ∈ s.running)
    (hdir : run.stage.dir = some name)
    (ht : s.writeRecord name (ownerRecord run.driver worker kept) = some t) :
    ∃ dir, s.dirs name = some dir ∧
      t = s.setDir name (some ⟨some (.record (ownerRecord run.driver worker kept)), s.now, dir.run⟩) ∧
      Sound t := by
  obtain ⟨dir, hd, rfl⟩ := Option.map_eq_some_iff.mp ht
  refine ⟨dir, hd, rfl, ?_⟩
  apply h.rewriteDir hd
  · rfl
  · intro r owner hr ho
    obtain rfl := OwnerFile.record.inj (Option.some.inj hr)
    obtain ⟨own, ho', hi⟩ := h.own i run name hrun hdriver hdir
    obtain rfl : dir = own := Option.some.inj (hd.symm.trans ho')
    have he : s.ownerOf name = some run := (s.ownerOf_eq_some _ _).mpr ⟨dir, i, hd, hi, hrun⟩
    obtain rfl := Option.some.inj (he.symm.trans ho)
    exact ⟨⟨rfl, rfl⟩, Or.inl hdriver⟩

end

section
variable [DecidableEq ι] [DecidableEq ν] {t : WorkRoot ι ν} {i : ι}

/-- A live driver goes on with the record it wrote, in the same directory or none. -/
theorem recordStage (h : Sound s) {run : ExportRun ν} {name : ν} {worker : Option Process}
    {kept : Bool} {stage : Stage ν} (hrun : s.runs i = some run) (hdriver : run.driver ∈ s.running)
    (hdir : run.stage.dir = some name)
    (ht : s.writeRecord name (ownerRecord run.driver worker kept) = some t)
    (hused : ∀ p, stage.worker = some p → p ∈ s.used)
    (hstage : stage.dir = some name ∨ stage.dir = none) (hheld : stage.held = none) :
    Sound (t.setStage i run.driver stage) := by
  obtain ⟨dir, hd, rfl, hsound⟩ := h.writeRecord hrun hdriver hdir ht
  apply hsound.setStage hrun
  · refine ⟨rfl, ?_⟩
    intro p _
    exact Or.inr hdriver
  · exact hused
  · intro n _ hn
    obtain ⟨own, ho, hi⟩ := h.own i run name hrun hdriver hdir
    obtain rfl : dir = own := Option.some.inj (hd.symm.trans ho)
    rcases hstage with hstage | hstage
    · obtain rfl := Option.some.inj (hstage.symm.trans hn)
      refine ⟨⟨some (.record (ownerRecord run.driver worker kept)), s.now, dir.run⟩, ?_, hi⟩
      rw [WorkRoot.setDir_dirs, if_pos rfl]
    · rw [hstage] at hn
      simp at hn
  · intro n owner _ hn
    rw [hheld] at hn
    simp at hn

theorem begin_sound (h : Sound s) {driver : Process} (ht : s.step (.begin i driver) = some t) :
    Sound t := by
  delta WorkRoot.step at ht
  dsimp only at ht
  split_ifs at ht with hc
  obtain rfl := Option.some.inj ht
  apply (h.start hc.2).enter
  · exact hc.1
  · exact List.mem_cons_self

theorem list_sound (h : Sound s) {names : List ν} (ht : s.step (.list i names) = some t) :
    Sound t := by
  delta WorkRoot.step at ht
  dsimp only at ht
  split at ht
  · rename_i driver hacting
    obtain ⟨hrun, -⟩ := (s.acting_eq_some _ _).mp hacting
    split_ifs at ht
    obtain rfl := Option.some.inj ht
    apply h.idleStage hrun rfl rfl
    intro name owner hn
    simp [Stage.held] at hn
  · simp at ht

theorem look_sound (h : Sound s) (hallowed : Allowed s (.look i))
    (ht : s.step (.look i) = some t) : Sound t := by
  delta WorkRoot.step at ht
  dsimp only at ht
  split at ht
  · rename_i driver sweep hacting
    obtain ⟨hrun, hdriver⟩ := (s.acting_eq_some _ _).mp hacting
    obtain ⟨sweep', hlook, rfl⟩ := Option.map_eq_some_iff.mp ht
    apply h.idleStage hrun rfl rfl
    intro name owner hn ho
    exact h.look_known hallowed hrun hdriver rfl hlook hn ho
  · simp at ht

theorem remove_sound (h : Sound s) {left : Left} {again : Bool}
    (ht : s.step (.remove i left again) = some t) : Sound t := by
  delta WorkRoot.step at ht
  dsimp only at ht
  split at ht
  · rename_i driver name names hacting
    obtain ⟨hrun, -⟩ := (s.acting_eq_some _ _).mp hacting
    obtain rfl := Option.some.inj ht
    have hremoved : Sound (s.removeTree name left) := by
      apply h.removeTree
      intro _ j run hj hlive hdir
      obtain ⟨dir, hd, hown⟩ := h.own j run name hj hlive hdir
      have ho := (s.ownerOf_eq_some name run).mpr ⟨dir, j, hd, hown, hj⟩
      exact h.stale_unused hacting ho (Or.inl hlive)
    have hkept : (s.removeTree name left).runs = s.runs ∧
        (s.removeTree name left).running = s.running := by
      cases left <;> exact ⟨rfl, rfl⟩
    have hrun' : (s.removeTree name left).runs i = some ⟨driver,.sweeping (.stale name names)⟩ := by
      rw [hkept.1]
      exact hrun
    split_ifs with hagain
    · apply hremoved.idleStage hrun' rfl rfl
      intro n owner hn ho
      have hstale := hremoved.held i _ n owner hrun'
      apply hstale _ hn ho
      rw [hkept.2]
      exact ((s.acting_eq_some _ _).mp hacting).2
    · apply hremoved.idleStage hrun' rfl rfl
      intro n owner hn
      simp [Stage.held] at hn
  · simp at ht

theorem make_sound (h : Sound s) {name : ν} (hallowed : Allowed s (.make i name))
    (ht : s.step (.make i name) = some t) : Sound t := by
  delta WorkRoot.step at ht
  dsimp only at ht
  split at ht
  · rename_i driver hacting
    obtain ⟨hrun, hdriver⟩ := (s.acting_eq_some _ _).mp hacting
    split at ht
    · rename_i hd
      obtain rfl := Option.some.inj ht
      have hmade : Sound (s.setDir name (some ⟨none, s.now, some i⟩)) := by
        apply h.setDir
        · intro j run hj hlive hdir
          obtain ⟨dir, hd', -⟩ := h.own j run name hj hlive hdir
          rw [hd] at hd'
          simp at hd'
        · intro dir j he hj
          obtain rfl := Option.some.inj he
          obtain rfl := Option.some.inj hj
          rw [hrun]
          rfl
        · intro dir r j run he hr
          obtain rfl := Option.some.inj he
          simp at hr
        · intro dir j run k sweeper _ _ _ hk hlive hheld
          exact absurd hheld (hallowed k sweeper hk hlive)
      apply hmade.setStage hrun
      · refine ⟨rfl, ?_⟩
        simp [Stage.worker]
      · simp [Stage.worker]
      · intro n _ hn
        obtain rfl := Option.some.inj hn
        refine ⟨⟨none, s.now, some i⟩, ?_, rfl⟩
        rw [WorkRoot.setDir_dirs, if_pos rfl]
      · simp [Stage.held]
    · simp at ht
  · simp at ht

theorem writeOwner_sound (h : Sound s) (ht : s.step (.writeOwner i) = some t) : Sound t := by
  delta WorkRoot.step at ht
  dsimp only at ht
  split at ht
  · rename_i driver name hacting
    obtain ⟨hrun, hdriver⟩ := (s.acting_eq_some _ _).mp hacting
    obtain ⟨u, hu, rfl⟩ := Option.map_eq_some_iff.mp ht
    exact h.recordStage hrun hdriver rfl hu (by simp [Stage.worker]) (Or.inl rfl) rfl
  · simp at ht

theorem startWorker_sound (h : Sound s) {worker : Process}
    (ht : s.step (.startWorker i worker) = some t) : Sound t := by
  delta WorkRoot.step at ht
  dsimp only at ht
  split at ht
  · rename_i driver name hacting
    obtain ⟨hrun, hdriver⟩ := (s.acting_eq_some _ _).mp hacting
    split_ifs at ht with hfresh
    obtain rfl := Option.some.inj ht
    apply (h.start hfresh).setStage hrun
    · refine ⟨rfl, ?_⟩
      intro p _
      exact Or.inr (List.mem_cons_of_mem _ hdriver)
    · intro p hp
      obtain rfl := Option.some.inj hp
      exact List.mem_cons_self
    · intro n _ hn
      exact h.own i _ n hrun hdriver hn
    · simp [Stage.held]
  · simp at ht

theorem writeWorker_sound (h : Sound s) (ht : s.step (.writeWorker i) = some t) : Sound t := by
  delta WorkRoot.step at ht
  dsimp only at ht
  split at ht
  · rename_i driver name worker hacting
    obtain ⟨hrun, hdriver⟩ := (s.acting_eq_some _ _).mp hacting
    obtain ⟨u, hu, rfl⟩ := Option.map_eq_some_iff.mp ht
    apply h.recordStage hrun hdriver rfl hu _ (Or.inl rfl) rfl
    intro p hp
    exact (h.drivers i _ hrun).2 p hp
  · simp at ht

theorem stop_sound (h : Sound s) (ht : s.step (.stop i) = some t) : Sound t := by
  delta WorkRoot.step at ht
  dsimp only at ht
  split at ht
  · simp at ht
  · rename_i run hacting
    obtain ⟨hrun, hdriver⟩ := (s.acting_eq_some _ _).mp hacting
    split at ht
    · simp at ht
    · rename_i name hdir
      split_ifs at ht
      obtain rfl := Option.some.inj ht
      apply h.setStage hrun
      · refine ⟨rfl, ?_⟩
        simp [Stage.worker]
      · simp [Stage.worker]
      · intro n _ hn
        obtain rfl := Option.some.inj hn
        exact h.own i run name hrun hdriver hdir
      · simp [Stage.held]

theorem discard_sound (h : Sound s) {left : Left} {again : Bool}
    (ht : s.step (.discard i left again) = some t) : Sound t := by
  delta WorkRoot.step at ht
  dsimp only at ht
  split at ht
  · rename_i driver name hacting
    obtain ⟨hrun, hdriver⟩ := (s.acting_eq_some _ _).mp hacting
    obtain rfl := Option.some.inj ht
    have hcommute : ∀ stage : Stage ν, (s.removeTree name left).setStage i driver stage =
        (s.setStage i driver stage).removeTree name left := by
      intro stage
      cases left <;> rfl
    rw [hcommute]
    split_ifs with hagain
    · have hstay : Sound (s.setStage i driver (.finishing name)) := by
        apply h.setStage hrun
        · refine ⟨rfl, ?_⟩
          simp [Stage.worker]
        · simp [Stage.worker]
        · intro n _ hn
          exact h.own i _ n hrun hdriver hn
        · simp [Stage.held]
      apply hstay.removeTree
      intro hgone
      exact absurd hgone hagain.1
    · have hend : Sound (s.setStage i driver .finished) := by
        apply h.idleStage hrun rfl rfl
        simp [Stage.held]
      apply hend.removeTree
      intro _ j run hj hlive hdir
      -- the directory is this run's own, and its stage names none any more
      obtain ⟨dir, hd, hown⟩ := hend.own j run name hj hlive hdir
      obtain ⟨dir', hd', hown'⟩ := h.own i _ name hrun hdriver rfl
      obtain rfl : dir = dir' := Option.some.inj (hd.symm.trans hd')
      obtain rfl : j = i := Option.some.inj (hown.symm.trans hown')
      rw [WorkRoot.setStage_runs, if_pos rfl] at hj
      obtain rfl := Option.some.inj hj
      simp [Stage.dir] at hdir
  · simp at ht

theorem keep_sound (h : Sound s) {written : Bool} (ht : s.step (.keep i written) = some t) :
    Sound t := by
  delta WorkRoot.step at ht
  dsimp only at ht
  split at ht
  · rename_i driver name hacting
    obtain ⟨hrun, hdriver⟩ := (s.acting_eq_some _ _).mp hacting
    split_ifs at ht
    · obtain ⟨u, hu, rfl⟩ := Option.map_eq_some_iff.mp ht
      exact h.recordStage hrun hdriver rfl hu (by simp [Stage.worker]) (Or.inr rfl) rfl
    · obtain rfl := Option.some.inj ht
      apply h.idleStage hrun rfl rfl
      simp [Stage.held]
  · simp at ht

theorem touch_sound (h : Sound s) {name : ν} (ht : s.step (.touch name) = some t) : Sound t := by
  delta WorkRoot.step at ht
  dsimp only at ht
  obtain ⟨dir, hd, rfl⟩ := Option.map_eq_some_iff.mp ht
  apply h.rewriteDir hd
  · rfl
  · intro r run hr ho
    exact h.disk name dir r run hd hr ho

/-- Every allowed event keeps the records true. -/
theorem step_sound (h : Sound s) {e : WorkEvent ι ν} (hallowed : Allowed s e)
    (ht : s.step e = some t) : Sound t := by
  cases e with
  | begin i driver => exact h.begin_sound ht
  | list i names => exact h.list_sound ht
  | look i => exact h.look_sound hallowed ht
  | remove i left again => exact h.remove_sound ht
  | make i name => exact h.make_sound hallowed ht
  | writeOwner i => exact h.writeOwner_sound ht
  | startWorker i worker => exact h.startWorker_sound ht
  | writeWorker i => exact h.writeWorker_sound ht
  | stop i => exact h.stop_sound ht
  | discard i left again => exact h.discard_sound ht
  | keep i written => exact h.keep_sound ht
  | touch name => exact h.touch_sound ht
  | spawn p =>
    delta WorkRoot.step at ht
    dsimp only at ht
    split_ifs at ht with hfresh
    obtain rfl := Option.some.inj ht
    exact h.start hfresh
  | kill p =>
    obtain rfl := Option.some.inj ht
    exact h.stopProcess hallowed
  | tick =>
    obtain rfl := Option.some.inj ht
    exact ⟨h.pids, h.used, h.drivers, h.made, h.own, h.disk, h.held⟩

end

end Sound

/-- No run has begun; what lies in the work root was left behind before. -/
structure Initial (s : WorkRoot ι ν) : Prop where
  runs : ∀ i, s.runs i = none
  dirs : ∀ name dir, s.dirs name = some dir → dir.run = none
  pids : ∀ p ∈ s.running, p.pid ≠ 0 ∧ ∀ q ∈ s.running, q.pid = p.pid → q = p
  used : ∀ p ∈ s.running, p ∈ s.used

theorem Initial.sound {s : WorkRoot ι ν} (h : Initial s) : Sound s where
  pids := h.pids
  used := h.used
  drivers := by
    intro i run hrun
    rw [h.runs] at hrun
    simp at hrun
  made := by
    intro name dir j hd hj
    rw [h.dirs name dir hd] at hj
    simp at hj
  own := by
    intro i run name hrun
    rw [h.runs] at hrun
    simp at hrun
  disk := by
    intro name dir r run _ _ ho
    obtain ⟨-, j, -, -, hj⟩ := (s.ownerOf_eq_some _ _).mp ho
    rw [h.runs] at hj
    simp at hj
  held := by
    intro i sweeper name run hrun
    rw [h.runs] at hrun
    simp at hrun

section
variable [DecidableEq ι] [DecidableEq ν]

/-- A sweep's removal touches the directory in its hand only. -/
theorem remove_cases {s t : WorkRoot ι ν} {i : ι} {left : Left} {again : Bool}
    (ht : s.step (.remove i left again) = some t) : ∃ driver name names,
      s.acting i = some ⟨driver,.sweeping (.stale name names)⟩ ∧
      ∀ n, n ≠ name → t.dirs n = s.dirs n := by
  delta WorkRoot.step at ht
  dsimp only at ht
  split at ht
  · rename_i driver name names hacting
    obtain rfl := Option.some.inj ht
    refine ⟨driver, name, names, hacting, ?_⟩
    intro n hn
    show (s.removeTree name left).dirs n = s.dirs n
    cases left with
    | gone =>
      show (s.setDir name none).dirs n = s.dirs n
      rw [WorkRoot.setDir_dirs, if_neg hn]
    | whole => rfl
    | bare =>
      show (s.setDir name _).dirs n = s.dirs n
      rw [WorkRoot.setDir_dirs, if_neg hn]
  · simp at ht

/-- In a run of allowed events a sweep never removes a directory of a run one of whose processes
still runs. -/
theorem sweep_spares_used (s₀ s t : WorkRoot ι ν) (h₀ : Initial s₀)
    (events : List (WorkEvent ι ν)) (hallowed : Along WorkRoot.step Allowed s₀ events)
    (hs : exec WorkRoot.step s₀ events = some s) (i : ι) (left : Left) (again : Bool)
    (ht : s.step (.remove i left again) = some t) (name : ν) (run : ExportRun ν)
    (hremoved : t.dirs name ≠ s.dirs name) (hrun : s.ownerOf name = some run) :
    ¬ InUse s.running run := by
  have hsound : Sound s :=
    exec_invariant (fun u e v hallowed hu hv => hu.step_sound hallowed hv) hallowed h₀.sound hs
  obtain ⟨driver, target, names, hacting, hothers⟩ := remove_cases ht
  have htarget : name = target := by
    by_contra hne
    exact hremoved (hothers name hne)
  rw [htarget] at hrun
  exact hsound.stale_unused hacting hrun

end

/-- An empty work root. -/
def emptyWorkRoot : WorkRoot Nat Nat := ⟨fun _ => none, fun _ => none, [], [], 0⟩

theorem emptyWorkRoot_initial : Initial emptyWorkRoot where
  runs := fun _ => rfl
  dirs := by
    intro name dir hd
    simp [emptyWorkRoot] at hd
  pids := by simp [emptyWorkRoot]
  used := by simp [emptyWorkRoot]

/-- A driver dies before it starts its worker, and the next run's sweep finds its directory. -/
def leftBehind : List (WorkEvent Nat Nat) :=
  [.begin 0 ⟨10,1⟩, .list 0 [], .make 0 7, .writeOwner 0, .kill ⟨10,1⟩,
    .begin 1 ⟨12,3⟩, .list 1 [7], .look 1, .look 1, .look 1]

theorem leftBehind_allowed : Along WorkRoot.step Allowed emptyWorkRoot leftBehind := by
  apply Along.cons trivial rfl
  apply Along.cons trivial rfl
  refine Along.cons ?_ rfl ?_
  · intro i sweeper hi _ hheld
    simp only [WorkRoot.setStage_runs] at hi
    split_ifs at hi
    · obtain rfl := Option.some.inj hi
      simp [Stage.held] at hheld
    · exact Option.some_ne_none _ hi.symm
  apply Along.cons trivial rfl
  refine Along.cons ?_ rfl ?_
  · intro j run worker hrun _ _ hworker
    simp only [WorkRoot.setStage_runs, WorkRoot.setDir_runs] at hrun
    split_ifs at hrun
    · obtain rfl := Option.some.inj hrun
      simp [Stage.worker] at hworker
    · exact absurd hrun.symm (Option.some_ne_none _)
  apply Along.cons trivial rfl
  apply Along.cons trivial rfl
  refine Along.cons ?_ rfl ?_
  · intro sweeper name names dir run hi hstage
    obtain rfl := Option.some.inj hi
    cases hstage
  refine Along.cons ?_ rfl ?_
  · intro sweeper name names dir run hi hstage
    obtain rfl := Option.some.inj hi
    cases hstage
  refine Along.cons ?_ rfl ?_
  · intro sweeper name names dir run hi hstage
    obtain rfl := Option.some.inj hi
    cases hstage
  trivial

theorem sweep_spares_used_sample : ∃ s t run,
    exec WorkRoot.step emptyWorkRoot leftBehind = some s ∧
      s.step (.remove 1 .gone false) = some t ∧ t.dirs 7 ≠ s.dirs 7 ∧ s.ownerOf 7 = some run ∧
      ¬ InUse s.running run := by
  refine ⟨_, _, ⟨⟨10,1⟩, .owned 7⟩, rfl, rfl, (Option.some_ne_none _).symm, rfl, ?_⟩
  exact sweep_spares_used emptyWorkRoot _ _ emptyWorkRoot_initial leftBehind leftBehind_allowed rfl
    1 .gone false rfl 7 ⟨⟨10,1⟩, .owned 7⟩ (Option.some_ne_none _).symm rfl

/-- A driver dies after it started its worker and before the record names it, and the next run's
sweep finds its directory. -/
def diesBeforeRecord : List (WorkEvent Nat Nat) :=
  [.begin 0 ⟨10,1⟩, .list 0 [], .make 0 7, .writeOwner 0, .startWorker 0 ⟨11,2⟩, .kill ⟨10,1⟩,
    .begin 1 ⟨12,3⟩, .list 1 [7], .look 1, .look 1, .look 1]

/-- The sweep removes the directory the worker still uses. -/
theorem sweep_removes_used : ∃ s t run, exec WorkRoot.step emptyWorkRoot diesBeforeRecord = some s ∧
    s.step (.remove 1 .gone false) = some t ∧ t.dirs 7 ≠ s.dirs 7 ∧ s.ownerOf 7 = some run ∧
    InUse s.running run := by
  refine ⟨_, _, ⟨⟨10,1⟩, .started 7 ⟨11,2⟩⟩, rfl, rfl, ?_, rfl, Or.inr ⟨⟨11,2⟩, rfl, ?_⟩⟩
  · exact (Option.some_ne_none _).symm
  · decide

end DSigMatcher.Export
