import Mathlib.Data.List.Perm.Basic
import ComputeContract.Spindle.Pipeline

/-!
# What a run key holds

As long as the run keys of a trigger are new, the run, the logs and the steps of a job are its
own, whatever comes in between.

* `Owned`, `Stored`, `Fits`: how runs, logs and steps belong to jobs;
* `Inv`: all of it;
* `Move`: what a step of a job can do, when it is at work alone.
-/

namespace ComputeContract.Spindle

open AssocList

section
variable {cfg : Config} {waiting jobs : List Job} {heap : List Run} {runs : List (String × ℕ)}
  {log effects : List Effect} {j j' place : ℕ} {job job' : Job} {run : Run} {key taskId peUrl : String}

/-! ## Jobs -/

/-- A job is known by its key. -/
theorem job_eq_of_key (hunique : (jobs.map Job.key).Nodup) (h : jobs[j]? = some job)
    (h' : jobs[j']? = some job') (hkey : job.key = job'.key) : j = j' ∧ job = job' := by
  have hj : (jobs.map Job.key)[j]? = (jobs.map Job.key)[j']? := by
    rw [List.getElem?_map, List.getElem?_map, h, h']
    exact congrArg some hkey
  have hlt : j < (jobs.map Job.key).length := by
    rw [List.length_map]
    exact (List.getElem?_eq_some_iff.1 h).1
  obtain rfl := (List.getElem?_inj hlt hunique).1 hj
  exact ⟨rfl, Option.some.inj (h.symm.trans h')⟩

theorem getElem?_concat_of_some (h : jobs[j]? = some job) : (jobs ++ [job'])[j]? = some job := by
  rw [List.getElem?_append_left (List.getElem?_eq_some_iff.1 h).1, h]

/-! ## Tasks -/

def Effect.isTask : Effect → Bool
  | .task _ _ _ => true
  | _ => false

theorem task_mem_append (h : ∀ e ∈ effects, e.isTask = false) :
    .task j taskId peUrl ∈ log ++ effects ↔ .task j taskId peUrl ∈ log :=
  List.mem_append.trans (or_iff_left fun hmem => Bool.noConfusion (h _ hmem))

/-! ## Runs -/

/-- The run is that of the job, and can give up its VM once its task exists. -/
structure Run.Mine (cfg : Config) (log : List Effect) (j : ℕ) (job : Job) (run : Run) : Prop where
  of : run.Of log j job
  vm : run.taskId ≠ "" → run.reportVmDelete = if cfg.marketRfp then some j else none

theorem Run.Of.key_eq (h : run.Of log j job) : run.key = job.key := by
  rw [Run.key, h.workflow, h.knot, h.pipelineRkey, Job.key]

theorem Run.Mine.append (h : run.Mine cfg log j job)
    (heffects : ∀ taskId peUrl, .task j taskId peUrl ∉ effects) :
    run.Mine cfg (log ++ effects) j job :=
  ⟨{ h.of with task := fun taskId peUrl =>
      (List.mem_append.trans (or_iff_left (heffects taskId peUrl))).trans (h.of.task taskId peUrl) },
    h.vm⟩

/-- A run is registered for each job, and for those that are about to be submitted. -/
structure Owned (cfg : Config) (waiting : List Job) (heap : List Run) (runs : List (String × ℕ))
    (jobs : List Job) (log : List Effect) : Prop where
  unique : ((jobs ++ waiting).map Job.key).Nodup
  registered : ∀ job ∈ jobs ++ waiting, job.key ∈ keys runs
  owned : ∀ key place, runs.lookup key = some place → ∃ run job, heap[place]? = some run ∧
    job.key = key ∧ (job ∈ waiting ∧ run = placeholder cfg job ∨
      ∃ j, jobs[j]? = some job ∧ run.Mine cfg log j job)

theorem Owned.nodup (h : Owned cfg waiting heap runs jobs log) : (jobs.map Job.key).Nodup := by
  have hunique := h.unique
  rw [List.map_append] at hunique
  exact hunique.of_append_left

theorem Owned.not_waiting (h : Owned cfg waiting heap runs jobs log) (hjob : jobs[j]? = some job)
    (hwaiting : job' ∈ waiting) : job'.key ≠ job.key := by
  have hunique := h.unique
  rw [List.map_append] at hunique
  exact fun heq => (List.nodup_append.1 hunique).2.2 _
    (List.mem_map_of_mem (List.mem_of_getElem? hjob)) _ (List.mem_map_of_mem hwaiting) heq.symm

/-- The run of a job is found under its key. -/
theorem Owned.find (h : Owned cfg waiting heap runs jobs log) (hjob : jobs[j]? = some job)
    (hplace : runs.lookup job.key = some place) :
    ∃ run, heap[place]? = some run ∧ run.Mine cfg log j job := by
  obtain ⟨run, job', hrun, hkey, ⟨hwaiting, -⟩ | ⟨j', hjob', hmine⟩⟩ := h.owned _ _ hplace
  · exact absurd hkey (h.not_waiting hjob hwaiting)
  · obtain ⟨rfl, rfl⟩ := job_eq_of_key h.nodup hjob' hjob hkey
    exact ⟨run, hrun, hmine⟩

theorem Owned.exists_place (h : Owned cfg waiting heap runs jobs log) (hjob : jobs[j]? = some job) :
    ∃ place, runs.lookup job.key = some place :=
  Option.isSome_iff_exists.1 (lookup_isSome_iff.2
    (h.registered job (List.mem_append_left _ (List.mem_of_getElem? hjob))))

/-- What has no task of a job says nothing of runs. -/
theorem Owned.append (h : Owned cfg waiting heap runs jobs log)
    (heffects : ∀ e ∈ effects, e.isTask = false) :
    Owned cfg waiting heap runs jobs (log ++ effects) :=
  { h with
    owned := fun key place hplace => by
      obtain ⟨run, job, hrun, hkey, hwaiting | ⟨j, hjob, hmine⟩⟩ := h.owned key place hplace
      · exact ⟨run, job, hrun, hkey, .inl hwaiting⟩
      · exact ⟨run, job, hrun, hkey, .inr ⟨j, hjob, hmine.append fun taskId peUrl hmem =>
          Bool.noConfusion (heffects _ hmem)⟩⟩ }

/-- A workflow is registered under a new key. -/
theorem Owned.register (h : Owned cfg waiting heap runs jobs log) (hnew : job.key ∉ keys runs) :
    Owned cfg (waiting ++ [job]) (heap ++ [placeholder cfg job]) (set job.key heap.length runs)
      jobs log where
  unique := by
    rw [← List.append_assoc, List.map_append, List.nodup_append]
    refine ⟨h.unique, List.nodup_singleton _, fun key hkey key' hkey' heq => ?_⟩
    obtain ⟨job', hjob', rfl⟩ := List.mem_map.1 hkey
    rw [List.map_singleton, List.mem_singleton] at hkey'
    exact hnew (hkey' ▸ heq ▸ h.registered job' hjob')
  registered job' hmem := by
    rw [← lookup_isSome_iff, lookup_set]
    split_ifs with heq
    · rfl
    · rw [← List.append_assoc] at hmem
      rcases List.mem_append.1 hmem with hmem | hmem
      · exact lookup_isSome_iff.2 (h.registered job' hmem)
      · exact absurd (congrArg Job.key (List.mem_singleton.1 hmem)) heq
  owned key place hplace := by
    rw [lookup_set] at hplace
    split_ifs at hplace with heq
    · obtain rfl := Option.some.inj hplace
      exact ⟨_, job, List.getElem?_concat_length, heq.symm,
        .inl ⟨List.mem_append_right _ (List.mem_singleton.2 rfl), rfl⟩⟩
    · obtain ⟨run, job', hrun, hkey, howner⟩ := h.owned key place hplace
      refine ⟨run, job', ?_, hkey, howner.imp_left fun hwaiting =>
        ⟨List.mem_append_left _ hwaiting.1, hwaiting.2⟩⟩
      rw [List.getElem?_append_left (List.getElem?_eq_some_iff.1 hrun).1, hrun]

theorem mine_placeholder (hnone : ∀ taskId peUrl, .task j taskId peUrl ∉ log) :
    (placeholder cfg job).Mine cfg log j job :=
  ⟨⟨rfl, rfl, rfl, rfl, rfl, rfl,
    fun taskId peUrl => ⟨fun hmem => absurd hmem (hnone taskId peUrl), fun h => absurd rfl h.1⟩,
    nofun⟩, fun h => absurd rfl h⟩

/-- A registered workflow is submitted. -/
theorem Owned.submit (h : Owned cfg (job :: waiting) heap runs jobs log)
    (hnone : ∀ taskId peUrl, .task jobs.length taskId peUrl ∉ log) :
    Owned cfg waiting heap runs (jobs ++ [job]) log where
  unique := by
    rw [List.append_assoc]
    exact h.unique
  registered job' hmem := h.registered job' (by rwa [List.append_assoc] at hmem)
  owned key place hplace := by
    obtain ⟨run, job', hrun, hkey, ⟨hwaiting, rfl⟩ | ⟨j, hjob, hmine⟩⟩ := h.owned key place hplace
    · rcases List.mem_cons.1 hwaiting with rfl | hwaiting
      · exact ⟨_, job', hrun, hkey, .inr ⟨_, List.getElem?_concat_length, mine_placeholder hnone⟩⟩
      · exact ⟨_, job', hrun, hkey, .inl ⟨hwaiting, rfl⟩⟩
    · exact ⟨run, job', hrun, hkey, .inr ⟨j, getElem?_concat_of_some hjob, hmine⟩⟩

/-- The run of a job changes. -/
theorem Owned.modify (h : Owned cfg waiting heap runs jobs log) (hjob : jobs[j]? = some job)
    (hplace : runs.lookup job.key = some place) {f : Run → Run} {log' : List Effect}
    (hother : ∀ k, k ≠ j → ∀ taskId peUrl,
      .task k taskId peUrl ∈ log' ↔ .task k taskId peUrl ∈ log)
    (hf : ∀ run : Run, run.Mine cfg log j job → (f run).Mine cfg log' j job) :
    Owned cfg waiting (heap.modify place f) runs jobs log' :=
  { h with
    owned := fun key place' hplace' => by
      obtain ⟨run, job', hrun, hkey, howner⟩ := h.owned key place' hplace'
      by_cases heq : job'.key = job.key
      · -- It is the run of the job.
        rcases howner with ⟨hwaiting, -⟩ | ⟨k, hk, hmine⟩
        · exact absurd heq (h.not_waiting hjob hwaiting)
        · obtain ⟨rfl, rfl⟩ := job_eq_of_key h.nodup hk hjob heq
          obtain rfl := Option.some.inj (hplace.symm.trans (hkey ▸ hplace'))
          refine ⟨f run, job', ?_, hkey, .inr ⟨k, hk, hf run hmine⟩⟩
          rw [List.getElem?_modify, hrun]
          simp
      · obtain ⟨own, hown, hownMine⟩ := h.find hjob hplace
        have hne : place ≠ place' := by
          rintro rfl
          obtain rfl := Option.some.inj (hown.symm.trans hrun)
          rcases howner with ⟨-, rfl⟩ | ⟨k, -, hmine⟩
          · exact heq hownMine.of.key_eq
          · exact heq (hmine.of.key_eq.symm.trans hownMine.of.key_eq)
        refine ⟨run, job', ?_, hkey, howner.imp_right ?_⟩
        · rw [List.getElem?_modify, hrun]
          simp [hne]
        · rintro ⟨k, hk, hmine⟩
          have hkj : k ≠ j := by
            rintro rfl
            exact heq (congrArg Job.key (Option.some.inj (hk.symm.trans hjob)))
          exact ⟨k, hk, { hmine.of with task := fun taskId peUrl =>
            (hother k hkj taskId peUrl).trans (hmine.of.task taskId peUrl) }, hmine.vm⟩ }

/-! ## Logs -/

theorem ofJob_append : ofJob j (log ++ effects) = ofJob j log ++ ofJob j effects :=
  List.filter_append ..

theorem Ended.append {log effects : List Effect} (h : Ended log) : Ended (log ++ effects) := by
  obtain ⟨status, hmem, hterminal⟩ := h
  refine ⟨status, ?_, hterminal⟩
  rw [statuses, List.filterMap_append]
  exact List.mem_append_left _ hmem

/-- The job has settled its waiter. -/
def SettledBy (log : List Effect) (j : ℕ) : RunReady → Prop
  | .ready => ∃ taskId peUrl, .task j taskId peUrl ∈ log
  | .failed => Ended (ofJob j log)

theorem SettledBy.append {r : RunReady} (h : SettledBy log j r) (effects : List Effect) :
    SettledBy (log ++ effects) j r := by
  cases r with
  | ready =>
    obtain ⟨taskId, peUrl, hmem⟩ := h
    exact ⟨taskId, peUrl, List.mem_append_left _ hmem⟩
  | failed =>
    rw [SettledBy, ofJob_append]
    exact Ended.append h

/-- The job has this key. -/
def HasKey (jobs : List Job) (j : ℕ) (key : String) : Prop :=
  ∃ job, jobs[j]? = some job ∧ job.key = key

theorem HasKey.append (h : HasKey jobs j key) (job : Job) : HasKey (jobs ++ [job]) j key := by
  obtain ⟨job, hjob, hkey⟩ := h
  exact ⟨job, getElem?_concat_of_some hjob, hkey⟩

/-- What is stored under a key is of a job that has it. -/
structure Stored (jobs : List Job) (log : List Effect) (preRunLogs preLogs : List (String × ℕ))
    (logs : List (String × RunLog)) (runWaiters : List (String × Option RunReady)) : Prop where
  preRunLogs : ∀ key j, preRunLogs.lookup key = some j → HasKey jobs j key
  preLogs : ∀ key j, preLogs.lookup key = some j → HasKey jobs j key
  logs : ∀ key l, logs.lookup key = some l → ∃ j, HasKey jobs j key ∧
    .task j l.taskId l.peUrl ∈ log
  runWaiters : ∀ key r, runWaiters.lookup key = some (some r) → ∃ j, HasKey jobs j key ∧
    SettledBy log j r
  statuses : ∀ j key record, .status j key record ∈ log → HasKey jobs j key
  known : ∀ e ∈ log, ∀ j, e.job = some j → j < jobs.length

section
variable {preRunLogs preLogs : List (String × ℕ)} {logs : List (String × RunLog)}
  {runWaiters : List (String × Option RunReady)}

/-- Effects of a job are added. -/
theorem Stored.append (h : Stored jobs log preRunLogs preLogs logs runWaiters)
    (heffects : ∀ e ∈ effects, ∀ j, e.job = some j → j < jobs.length)
    (hstatuses : ∀ j key record, .status j key record ∈ effects → HasKey jobs j key) :
    Stored jobs (log ++ effects) preRunLogs preLogs logs runWaiters :=
  { h with
    logs := fun key l hl => by
      obtain ⟨j, hkey, hmem⟩ := h.logs key l hl
      exact ⟨j, hkey, List.mem_append_left _ hmem⟩
    runWaiters := fun key r hr => by
      obtain ⟨j, hkey, hsettled⟩ := h.runWaiters key r hr
      exact ⟨j, hkey, hsettled.append _⟩
    statuses := fun j key record hmem =>
      (List.mem_append.1 hmem).elim (h.statuses j key record) (hstatuses j key record)
    known := fun e hmem =>
      (List.mem_append.1 hmem).elim (h.known e) (heffects e) }

theorem Stored.addJob (h : Stored jobs log preRunLogs preLogs logs runWaiters) (job : Job) :
    Stored (jobs ++ [job]) log preRunLogs preLogs logs runWaiters where
  preRunLogs key j hj := (h.preRunLogs key j hj).append job
  preLogs key j hj := (h.preLogs key j hj).append job
  logs key l hl := by
    obtain ⟨j, hkey, hmem⟩ := h.logs key l hl
    exact ⟨j, hkey.append job, hmem⟩
  runWaiters key r hr := by
    obtain ⟨j, hkey, hsettled⟩ := h.runWaiters key r hr
    exact ⟨j, hkey.append job, hsettled⟩
  statuses j key record hmem := (h.statuses j key record hmem).append job
  known e hmem j hj := by
    rw [List.length_append]
    exact Nat.lt_add_right _ (h.known e hmem j hj)

theorem Stored.setPreRunLogs (h : Stored jobs log preRunLogs preLogs logs runWaiters)
    (hkey : HasKey jobs j key) :
    Stored jobs log (set key j preRunLogs) preLogs logs runWaiters :=
  { h with
    preRunLogs := fun key' j' hj => by
      rw [lookup_set] at hj
      split_ifs at hj with heq
      · obtain rfl := Option.some.inj hj
        exact heq ▸ hkey
      · exact h.preRunLogs key' j' hj }

theorem Stored.setPreLogs (h : Stored jobs log preRunLogs preLogs logs runWaiters)
    (hkey : HasKey jobs j key) :
    Stored jobs log preRunLogs (set key j preLogs) logs runWaiters :=
  { h with
    preLogs := fun key' j' hj => by
      rw [lookup_set] at hj
      split_ifs at hj with heq
      · obtain rfl := Option.some.inj hj
        exact heq ▸ hkey
      · exact h.preLogs key' j' hj }

theorem Stored.setLogs (h : Stored jobs log preRunLogs preLogs logs runWaiters)
    (hkey : HasKey jobs j key) {l : RunLog} (hl : .task j l.taskId l.peUrl ∈ log) :
    Stored jobs log preRunLogs preLogs (set key l logs) runWaiters :=
  { h with
    logs := fun key' l' hl' => by
      rw [lookup_set] at hl'
      split_ifs at hl' with heq
      · obtain rfl := Option.some.inj hl'
        exact ⟨j, heq ▸ hkey, hl⟩
      · exact h.logs key' l' hl' }

theorem Stored.setRunWaiters (h : Stored jobs log preRunLogs preLogs logs runWaiters)
    {w : Option RunReady} (hw : ∀ r, w = some r → ∃ j, HasKey jobs j key ∧ SettledBy log j r) :
    Stored jobs log preRunLogs preLogs logs (set key w runWaiters) :=
  { h with
    runWaiters := fun key' r hr => by
      rw [lookup_set] at hr
      split_ifs at hr with heq
      · exact heq ▸ hw r (Option.some.inj hr)
      · exact h.runWaiters key' r hr }

end

/-! ## Steps -/

/-- The job that a step works for, but for keeping the output. -/
def Pending.atWork : Pending → Option ℕ
  | .output _ _ _ _ _ => none
  | p => some p.number

/-- The step is of a job that was submitted, and goes with its run and task. -/
def Fits (runs : List (String × ℕ)) (jobs : List Job) (log : List Effect) : Pending → Prop
  | .sleep j job place => jobs[j]? = some job ∧ runs.lookup job.key = some place ∧
    ∃ taskId peUrl, .task j taskId peUrl ∈ log
  | .poll j job place peUrl taskId => jobs[j]? = some job ∧ runs.lookup job.key = some place ∧
    .task j taskId peUrl ∈ log
  | .output j job key peUrl taskId => jobs[j]? = some job ∧ key = job.key ∧
    .task j taskId peUrl ∈ log
  | .provision j job | .ready j job _ | .policyEngine j job _ | .giveUp j job _
  | .create j job _ => jobs[j]? = some job ∧ ∀ taskId peUrl, .task j taskId peUrl ∉ log

theorem Fits.submitted {p : Pending} (h : Fits runs jobs log p) : jobs[p.number]? = some p.job := by
  cases p <;> exact h.1

/-- A step fits after others have gone on. -/
theorem Fits.mono {p : Pending} {runs' : List (String × ℕ)} {jobs' : List Job}
    (h : Fits runs jobs log p)
    (hruns : ∀ key place, runs.lookup key = some place → runs'.lookup key = some place)
    (hjobs : ∀ (j : ℕ) (job : Job), jobs[j]? = some job → jobs'[j]? = some job)
    (htasks : p.atWork ≠ none → ∀ taskId peUrl, .task p.number taskId peUrl ∉ effects) :
    Fits runs' jobs' (log ++ effects) p := by
  have hnone {j : ℕ} {taskId peUrl : String} (hold : .task j taskId peUrl ∉ log)
      (hnew : .task j taskId peUrl ∉ effects) : .task j taskId peUrl ∉ log ++ effects :=
    fun hmem => (List.mem_append.1 hmem).elim hold hnew
  cases p with
  | sleep j job place =>
    obtain ⟨hjob, hplace, taskId, peUrl, hmem⟩ := h
    exact ⟨hjobs _ _ hjob, hruns _ _ hplace, taskId, peUrl, List.mem_append_left _ hmem⟩
  | poll j job place peUrl taskId =>
    exact ⟨hjobs _ _ h.1, hruns _ _ h.2.1, List.mem_append_left _ h.2.2⟩
  | output j job key peUrl taskId => exact ⟨hjobs _ _ h.1, h.2.1, List.mem_append_left _ h.2.2⟩
  | provision j job =>
    exact ⟨hjobs _ _ h.1, fun t u => hnone (h.2 t u) (htasks nofun t u)⟩
  | ready j job peUrl =>
    exact ⟨hjobs _ _ h.1, fun t u => hnone (h.2 t u) (htasks nofun t u)⟩
  | policyEngine j job peUrl =>
    exact ⟨hjobs _ _ h.1, fun t u => hnone (h.2 t u) (htasks nofun t u)⟩
  | giveUp j job err =>
    exact ⟨hjobs _ _ h.1, fun t u => hnone (h.2 t u) (htasks nofun t u)⟩
  | create j job peUrl =>
    exact ⟨hjobs _ _ h.1, fun t u => hnone (h.2 t u) (htasks nofun t u)⟩

end

/-! ## The invariant -/

/-- Everything is of the job whose key it is under. -/
structure Inv (cfg : Config) (waiting : List Job) (s : State) : Prop where
  owned : Owned cfg waiting s.heap s.runs s.jobs s.log
  stored : Stored s.jobs s.log s.preRunLogs s.preLogs s.logs s.runWaiters
  fits : ∀ p ∈ s.pending, Fits s.runs s.jobs s.log p
  atWork : (s.pending.filterMap Pending.atWork).Nodup

theorem inv_start (cfg : Config) : Inv cfg [] start :=
  ⟨⟨.nil, nofun, nofun⟩, ⟨nofun, nofun, nofun, nofun, nofun, nofun⟩, nofun, .nil⟩

section
variable {cfg : Config} {waiting : List Job} {s : State} {job : Job} {p : Pending} {a : Answer}
  {turn : Turn}

theorem Inv.no_effects (h : Inv cfg waiting s) {e : Effect} (he : e.job = some s.jobs.length) :
    e ∉ s.log := fun hmem => Nat.lt_irrefl _ (h.stored.known e hmem _ he)

theorem Inv.number_lt (h : Inv cfg waiting s) (hp : p ∈ s.pending) : p.number < s.jobs.length :=
  (List.getElem?_eq_some_iff.1 (h.fits p hp).submitted).1

/-! ## Triggers -/

theorem getRunWaiter_eq (s : State) (key : String) : ∃ w, getRunWaiter s key =
    { s with runWaiters := w } ∧ (w = s.runWaiters ∨ w = set key none s.runWaiters) := by
  unfold getRunWaiter
  split
  · exact ⟨_, rfl, .inr rfl⟩
  · exact ⟨_, rfl, .inl rfl⟩

theorem lookup_set_new {runs : List (String × ℕ)} {key key' : String} {place' : ℕ} (place : ℕ)
    (hnew : key ∉ keys runs) (h : runs.lookup key' = some place') :
    (set key place runs).lookup key' = some place' := by
  rw [lookup_set, if_neg, h]
  rintro rfl
  exact hnew (lookup_isSome_iff.1 (Option.isSome_of_eq_some h))

theorem Inv.register (h : Inv cfg waiting s) (hnew : job.key ∉ keys s.runs) :
    Inv cfg (waiting ++ [job]) (register cfg s job) := by
  obtain ⟨w, hw, hor⟩ := getRunWaiter_eq { s with
    heap := s.heap ++ [placeholder cfg job], runs := set job.key s.heap.length s.runs } job.key
  rw [Spindle.register, if_neg hnew, hw]
  refine ⟨h.owned.register hnew, ?_, fun p hp => ?_, h.atWork⟩
  · rcases hor with rfl | rfl
    · exact h.stored
    · exact h.stored.setRunWaiters nofun
  · rw [← List.append_nil s.log]
    exact (h.fits p hp).mono (fun _ _ => lookup_set_new s.heap.length hnew)
      (fun _ _ hj => hj) fun _ _ _ => List.not_mem_nil

theorem keys_register (s : State) (hnew : job.key ∉ keys s.runs) :
    keys (register cfg s job).runs = keys s.runs ++ [job.key] := by
  obtain ⟨w, hw, -⟩ := getRunWaiter_eq { s with
    heap := s.heap ++ [placeholder cfg job], runs := set job.key s.heap.length s.runs } job.key
  rw [Spindle.register, if_neg hnew, hw]
  exact keys_set_of_not_mem _ hnew

theorem Inv.submit (h : Inv cfg (job :: waiting) s) : Inv cfg waiting (submit cfg s job) := by
  have hnone (taskId peUrl : String) : .task s.jobs.length taskId peUrl ∉ s.log :=
    h.no_effects rfl
  have hstatus (peStatus exitStatus : Option String) : ∀ e ∈ [broadcast s.jobs.length job peStatus
      exitStatus], e.isTask = false := fun e he => List.mem_singleton.1 he ▸ rfl
  have hkey : HasKey (s.jobs ++ [job]) s.jobs.length job.key :=
    ⟨job, List.getElem?_concat_length, rfl⟩
  refine ⟨(h.owned.submit hnone).append (hstatus _ _), ?_, ?_, ?_⟩
  · have hstored : Stored (s.jobs ++ [job])
        (s.log ++ [broadcast s.jobs.length job (some "submitted") none]) s.preRunLogs s.preLogs
        s.logs s.runWaiters := (h.stored.addJob job).append ?_ ?_
    · unfold Spindle.submit
      dsimp only
      split_ifs
      · exact hstored.setPreRunLogs hkey
      · exact hstored
    · intro e he j hj
      obtain rfl := List.mem_singleton.1 he
      obtain rfl := Option.some.inj hj
      simp
    · intro j key record hmem
      obtain ⟨rfl, rfl, -⟩ := Effect.status.inj (List.mem_singleton.1 hmem)
      exact hkey
  · refine List.forall_mem_cons.2 ⟨?_, fun p hp => ?_⟩
    · have hnone' (taskId peUrl : String) : .task s.jobs.length taskId peUrl ∉ s.log ++
          [broadcast s.jobs.length job (some "submitted") none] :=
        (task_mem_append (hstatus _ _)).not.2 (hnone taskId peUrl)
      split_ifs
      · exact ⟨List.getElem?_concat_length, hnone'⟩
      · exact ⟨List.getElem?_concat_length, hnone'⟩
    · exact (h.fits p hp).mono (fun _ _ hplace => hplace)
        (fun _ _ hj => getElem?_concat_of_some hj) fun _ _ _ hmem =>
          Effect.noConfusion (List.mem_singleton.1 hmem)
  · have hfresh : s.jobs.length ∉ s.pending.filterMap Pending.atWork := by
      intro hmem
      obtain ⟨p, hp, hwork⟩ := List.mem_filterMap.1 hmem
      have hnumber : p.number = s.jobs.length := by
        cases p <;> first | exact Option.some.inj hwork | cases hwork
      exact Nat.lt_irrefl _ (hnumber ▸ h.number_lt hp)
    have hwork : (if cfg.marketRfp then Pending.provision s.jobs.length job
        else .create s.jobs.length job cfg.policyEngineUrl).atWork = some s.jobs.length := by
      split_ifs <;> rfl
    unfold Spindle.submit
    dsimp only
    rw [List.filterMap_cons_some hwork]
    exact List.nodup_cons.2 ⟨hfresh, h.atWork⟩

/-- The workflows of a trigger are registered, under new keys. -/
theorem Inv.registerAll {news : List Job} (h : Inv cfg waiting s)
    (hnew : ∀ job ∈ news, job.key ∉ keys s.runs) (hnodup : (news.map Job.key).Nodup) :
    Inv cfg (waiting ++ news) (news.foldl (Spindle.register cfg) s) := by
  induction news generalizing s waiting with
  | nil => rwa [List.append_nil]
  | cons job news ih =>
    obtain ⟨hjob, hnews⟩ := List.forall_mem_cons.1 hnew
    obtain ⟨hnot, hnodup⟩ := List.nodup_cons.1 hnodup
    rw [List.append_cons]
    refine ih (h.register hjob) (fun job' hmem => ?_) hnodup
    rw [keys_register s hjob, List.mem_append, List.mem_singleton]
    exact fun hor => hor.elim (hnews job' hmem) fun heq =>
      hnot (heq ▸ List.mem_map_of_mem hmem)

/-- They are submitted. -/
theorem Inv.submitAll (h : Inv cfg waiting s) :
    Inv cfg [] (waiting.foldl (Spindle.submit cfg) s) := by
  induction waiting generalizing s with
  | nil => exact h
  | cons job waiting ih => exact ih h.submit

/-- The keys of different workflows of a trigger are different. -/
theorem nodup_keys_stems (trigger : TriggerPayload) {stems : List String} (h : stems.Nodup) :
    ((stems.map (Job.mk trigger)).map Job.key).Nodup := by
  rw [List.map_map]
  refine h.map fun stem stem' heq => String.toList_injective ?_
  have hlist := congrArg String.toList heq
  simpa [Job.key, runKey] using hlist

theorem Inv.registerTrigger (h : Inv cfg [] s) {trigger : TriggerPayload} {workflows : Workflows}
    (hnew : NewKeys s (.trigger trigger workflows)) :
    Inv cfg (workflows.stems.map (Job.mk trigger))
      ((workflows.stems.map (Job.mk trigger)).foldl (Spindle.register cfg) s) := by
  refine h.registerAll (fun job hjob => ?_) (nodup_keys_stems trigger workflows.nodup)
  obtain ⟨stem, hstem, rfl⟩ := List.mem_map.1 hjob
  exact hnew trigger workflows rfl stem hstem

theorem Inv.trigger (h : Inv cfg [] s) {trigger : TriggerPayload} {workflows : Workflows}
    (hnew : NewKeys s (.trigger trigger workflows)) :
    Inv cfg [] (triggerWorkflows cfg s trigger workflows) :=
  (h.registerTrigger hnew).submitAll

end

end ComputeContract.Spindle
