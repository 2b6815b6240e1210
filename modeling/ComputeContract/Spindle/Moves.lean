import ComputeContract.Spindle.Held

/-!
# Moves of a job

What an answer does to the steps of a job and to what it broadcasts, as long as runs, logs and
steps are those of their jobs.

* `Move`: the moves;
* `Goes`: an answer makes a move, and everything stays with its job;
* `inv_step`: new run keys keep the invariant;
* `phases_step`: what every move of a job keeps, every step keeps.
-/

namespace ComputeContract.Spindle

open AssocList

/-! ## Moves -/

/-- A VM is provisioned, and the engine asked for. -/
def Pending.boots : Pending → Bool
  | .ready _ _ _ | .policyEngine _ _ _ => true
  | _ => false

/-- A step takes an answer: the steps that follow, and the effects. -/
inductive Move (cfg : Config) : Pending → Answer → List Pending → List Effect → Prop
  | provisioned {j : ℕ} {job : Job} {vm : Bool} {peUrl : String} :
    Move cfg (.provision j job) (.provisioned (.ok (vm, peUrl))) [.ready j job peUrl]
      (if vm then [.provisioned j] else [])
  | provisionFails {j : ℕ} {job : Job} {err exit : String} :
    Move cfg (.provision j job) (.provisioned (.error err)) []
      [broadcast j job (some "unknown") (some exit)]
  | boots {p q : Pending} {a : Answer} (hp : p.boots) (hnumber : q.number = p.number)
    (hq : q.boots ∨ ∃ peUrl, q = .create p.number p.job peUrl) : Move cfg p a [q] []
  | bootFails {p : Pending} {a : Answer} {err reason : String} (hp : p.boots) :
    Move cfg p a [.giveUp p.number p.job err] [.reported p.number reason]
  | givenUp {j : ℕ} {job : Job} {err exit : String} : Move cfg (.giveUp j job err) .reported []
      [broadcast j job (some "unknown") (some exit)]
  | created {j place : ℕ} {job : Job} {peUrl taskId : String} (htask : taskId ≠ "") :
    Move cfg (.create j job peUrl) (.created (.ok taskId)) [.sleep j job place]
      [.task j taskId peUrl]
  | createFails {j : ℕ} {job : Job} {peUrl exit : String} {result : Except String String}
    (htask : ∀ taskId, result = .ok taskId → taskId = "") :
    Move cfg (.create j job peUrl) (.created result) []
      [broadcast j job (some "unknown") (some exit)]
  | slept {j place : ℕ} {job : Job} {peUrl taskId : String} :
    Move cfg (.sleep j job place) .slept [.poll j job place peUrl taskId] []
  | unreachable {j place : ℕ} {job : Job} {peUrl taskId : String} :
    Move cfg (.poll j job place peUrl taskId) (.polled none) [.sleep j job place] []
  | null {j place : ℕ} {job : Job} {peUrl taskId : String} :
    Move cfg (.poll j job place peUrl taskId) (.polled (some .null)) [] []
  | status {j place : ℕ} {job : Job} {peUrl taskId key : String} {status exit output : Option String}
    {record : PipelineStatusRecord} (hstatus : status ≠ some "complete" ∧ status ≠ some "unknown")
    (hrecord : record.status = peStatusToTangled status) :
    Move cfg (.poll j job place peUrl taskId) (.polled (some (.value status exit output)))
      [.sleep j job place] [.status j key record]
  | ended {j place : ℕ} {job : Job} {peUrl taskId key : String} {status exit output : Option String}
    {record : PipelineStatusRecord} {next : List Pending} (hrecord : record.status.terminal)
    (hnext : next = [] ∨ next = [.output j job job.key peUrl taskId]) :
    Move cfg (.poll j job place peUrl taskId) (.polled (some (.value status exit output))) next
      (.status j key record :: if cfg.marketRfp then [.reported j "workflow_complete"] else [])
  | kept {j : ℕ} {job : Job} {key peUrl taskId : String} {text : Option String} :
    Move cfg (.output j job key peUrl taskId) (.output text) [] []

section
variable {cfg : Config} {p q : Pending} {a : Answer} {next : List Pending} {effects : List Effect}
  {e : Effect} {s : State} {turn : Turn} {j place : ℕ} {job : Job} {run : Run}

theorem Pending.boots_number (h : p.boots) : p.atWork = some p.number := by
  cases p <;> first | rfl | cases h

/-- Only a step that is at work is followed by one. -/
theorem Move.atWork (h : Move cfg p a next effects) :
    (next.filterMap Pending.atWork).Sublist p.atWork.toList := by
  cases h with
  | @boots p q _ hp hnumber hq =>
    have hwork : q.atWork = some q.number := by
      rcases hq with hq | ⟨peUrl, rfl⟩
      · exact Pending.boots_number hq
      · rfl
    rw [Pending.boots_number hp, List.filterMap_cons_some hwork, hnumber]
    exact List.Sublist.refl _
  | bootFails hp =>
    rw [Pending.boots_number hp]
    exact List.Sublist.refl _
  | ended hrecord hnext =>
    rcases hnext with rfl | rfl <;> exact List.nil_sublist _
  | provisionFails | givenUp | createFails _ | null | kept => exact List.nil_sublist _
  | provisioned | created _ | slept | unreachable | status _ _ => exact List.Sublist.refl _

theorem Move.number (h : Move cfg p a next effects) (hq : q ∈ next) : q.number = p.number := by
  cases h with
  | boots hp hnumber hq' => exact (List.mem_singleton.1 hq) ▸ hnumber
  | ended hrecord hnext =>
    rcases hnext with rfl | rfl
    · cases hq
    · exact (List.mem_singleton.1 hq) ▸ rfl
  | provisionFails | givenUp | createFails _ | null | kept => cases hq
  | provisioned | bootFails _ | created _ | slept | unreachable | status _ _ =>
    exact (List.mem_singleton.1 hq) ▸ rfl

/-- A move is of its job. -/
theorem Move.of_job (h : Move cfg p a next effects) (he : e ∈ effects) : e.job = some p.number := by
  cases h with
  | provisioned =>
    split_ifs at he
    · exact (List.mem_singleton.1 he) ▸ rfl
    · cases he
  | ended hrecord hnext =>
    rcases List.mem_cons.1 he with rfl | he
    · rfl
    · split_ifs at he
      · exact (List.mem_singleton.1 he) ▸ rfl
      · cases he
  | boots _ _ _ | slept | unreachable | null | kept => cases he
  | provisionFails | bootFails _ | givenUp | created _ | createFails _ | status _ _ =>
    exact (List.mem_singleton.1 he) ▸ rfl

theorem Move.atWork_of_effect (h : Move cfg p a next effects) (he : e ∈ effects) :
    p.atWork = some p.number := by
  cases h with
  | boots hp _ _ => exact Pending.boots_number hp
  | bootFails hp => exact Pending.boots_number hp
  | kept => cases he
  | _ => rfl

/-! ## Turns -/

/-- The step makes a move, and everything stays with its job. -/
structure Goes (cfg : Config) (s : State) (p : Pending) (a : Answer) (turn : Turn) : Prop where
  move : Move cfg p a turn.next turn.effects
  jobs : turn.state.jobs = s.jobs
  log : turn.state.log = s.log
  runs : ∀ key place, s.runs.lookup key = some place → turn.state.runs.lookup key = some place
  fits : ∀ q ∈ turn.next, Fits turn.state.runs s.jobs (s.log ++ turn.effects) q
  owned : Owned cfg [] turn.state.heap turn.state.runs s.jobs (s.log ++ turn.effects)
  stored : Stored s.jobs (s.log ++ turn.effects) turn.state.preRunLogs turn.state.preLogs
    turn.state.logs turn.state.runWaiters

/-- What a step does keeps the invariant. -/
theorem Inv.after {pending : List Pending} (h : Inv cfg [] s)
    (hperm : (p :: pending).Perm s.pending) (hgoes : Goes cfg s p a turn) :
    Inv cfg [] (turn.after pending) := by
  have hwork : ((p :: pending).filterMap Pending.atWork).Nodup :=
    (hperm.filterMap _).nodup_iff.2 h.atWork
  unfold Turn.after
  refine ⟨?_, ?_, ?_, ?_⟩
  · have howned := hgoes.owned
    rwa [← hgoes.jobs, ← hgoes.log] at howned
  · have hstored := hgoes.stored
    rwa [← hgoes.jobs, ← hgoes.log] at hstored
  · dsimp only
    rw [hgoes.jobs, hgoes.log]
    refine List.forall_mem_append.2 ⟨hgoes.fits, fun q hq => ?_⟩
    refine (h.fits q (hperm.mem_iff.1 (List.mem_cons_of_mem _ hq))).mono hgoes.runs
      (fun _ _ hj => hj) fun hqwork taskId peUrl hmem => ?_
    -- The task is of the job that goes on, and this step is of another one.
    have hpwork := hgoes.move.atWork_of_effect hmem
    have hnumber : q.number = p.number := Option.some.inj (hgoes.move.of_job hmem)
    have hqwork' : q.atWork = some q.number := by
      cases q <;> first | rfl | exact absurd rfl hqwork
    rw [List.filterMap_cons_some hpwork] at hwork
    exact (List.nodup_cons.1 hwork).1
      (List.mem_filterMap.2 ⟨q, hq, hqwork'.trans (congrArg some hnumber)⟩)
  · dsimp only
    rw [List.filterMap_append]
    refine List.Nodup.sublist ?_ hwork
    have hsub := hgoes.move.atWork.append_right (pending.filterMap Pending.atWork)
    cases hp : p.atWork with
    | none =>
      rw [List.filterMap_cons_none hp]
      rwa [hp] at hsub
    | some k =>
      rw [List.filterMap_cons_some hp]
      rwa [hp] at hsub

/-- A turn that makes no task, and leaves the tables as they are. -/
theorem Inv.quiet (h : Inv cfg [] s) (hp : p ∈ s.pending) (hmove : Move cfg p a next effects)
    (htasks : ∀ e ∈ effects, e.isTask = false) (hfits : ∀ q ∈ next, Fits s.runs s.jobs s.log q)
    (hstatuses : ∀ j key record, .status j key record ∈ effects → HasKey s.jobs j key) :
    Goes cfg s p a ⟨s, next, effects⟩ where
  move := hmove
  jobs := rfl
  log := rfl
  runs _ _ hplace := hplace
  fits q hq := (hfits q hq).mono (fun _ _ hplace => hplace) (fun _ _ hj => hj)
    fun _ _ _ hmem => Bool.noConfusion (htasks _ hmem)
  owned := h.owned.append htasks
  stored := h.stored.append (fun e he j hj => by
    obtain rfl := Option.some.inj ((hmove.of_job he).symm.trans hj)
    exact h.number_lt hp) hstatuses

theorem settleRunWaiter_eq (s : State) (key : String) (r : RunReady) :
    ∃ w, settleRunWaiter s key r = { s with runWaiters := w } ∧
      (w = s.runWaiters ∨ w = set key (some r) s.runWaiters) := by
  unfold settleRunWaiter
  split
  · exact ⟨_, rfl, .inr rfl⟩
  · exact ⟨_, rfl, .inl rfl⟩

theorem ended_status {log : List Effect} {key : String} {record : PipelineStatusRecord}
    (h : record.status.terminal) : Ended (ofJob j (log ++ [.status j key record])) := by
  refine ⟨record.status, ?_, h⟩
  simp [statuses, ofJob, Effect.job, Effect.sent]

/-- A submission ends without a task. -/
theorem Inv.failSubmit (h : Inv cfg [] s) (hp : p ∈ s.pending) {err : String}
    (hmove : Move cfg p a [] [broadcast p.number p.job (some "unknown")
      (some (exitOfError err))]) :
    Goes cfg s p a (failSubmit s p.number p.job err) := by
  have hkey : HasKey s.jobs p.number p.job.key := ⟨_, (h.fits p hp).submitted, rfl⟩
  have hquiet := h.quiet hp hmove (fun e he => List.mem_singleton.1 he ▸ rfl) nofun
    fun j key record hmem => by
      obtain ⟨rfl, rfl, -⟩ := Effect.status.inj (List.mem_singleton.1 hmem)
      exact hkey
  obtain ⟨w, hw, hor⟩ := settleRunWaiter_eq s p.job.key .failed
  unfold Spindle.failSubmit
  rw [hw]
  refine { hquiet with stored := ?_ }
  rcases hor with rfl | rfl
  · exact hquiet.stored
  · refine hquiet.stored.setRunWaiters fun r hr => ?_
    obtain rfl := Option.some.inj hr
    exact ⟨_, hkey, ended_status rfl⟩

theorem Owned.congr {waiting jobs : List Job} {heap : List Run} {runs runs' : List (String × ℕ)}
    {log : List Effect} (h : Owned cfg waiting heap runs jobs log)
    (hlookup : ∀ key, runs'.lookup key = runs.lookup key) :
    Owned cfg waiting heap runs' jobs log where
  unique := h.unique
  registered job hmem := by
    rw [← lookup_isSome_iff, hlookup, lookup_isSome_iff]
    exact h.registered job hmem
  owned key place hplace := h.owned key place ((hlookup key).symm.trans hplace)

/-- The task of a job is installed in its run. -/
theorem Inv.install (h : Inv cfg [] s) {peUrl taskId : String}
    (hp : .create j job peUrl ∈ s.pending) (htask : taskId ≠ "") :
    Goes cfg s (.create j job peUrl) (.created (.ok taskId))
      (install cfg s j job taskId peUrl) := by
  obtain ⟨hjob, hnone⟩ := h.fits _ hp
  obtain ⟨place, hplace⟩ := h.owned.exists_place hjob
  have hkey : HasKey s.jobs j job.key := ⟨job, hjob, rfl⟩
  have hlookup (key : String) : (set job.key place s.runs).lookup key = s.runs.lookup key := by
    rw [lookup_set]
    split_ifs with heq
    · rw [heq, hplace]
    · rfl
  have hmem : .task j taskId peUrl ∈ s.log ++ [.task j taskId peUrl] :=
    List.mem_append_right _ (List.mem_singleton.2 rfl)
  have hstored : Stored s.jobs (s.log ++ [.task j taskId peUrl]) s.preRunLogs s.preLogs s.logs
      s.runWaiters := h.stored.append (fun e he k hk => by
    obtain rfl := List.mem_singleton.1 he
    obtain rfl := Option.some.inj hk
    exact h.number_lt hp) fun _ _ _ hs => Effect.noConfusion (List.mem_singleton.1 hs)
  unfold Spindle.install
  rw [hplace]
  dsimp only
  obtain ⟨w, hw, hor⟩ := settleRunWaiter_eq { s with
    heap := s.heap.modify place fun r => { r with
      taskId, peUrl, reportVmDelete := if cfg.marketRfp then some j else none,
      status := some "submitted" }
    runs := set job.key place s.runs } job.key .ready
  rw [hw]
  refine ⟨.created htask, rfl, rfl, fun key place' hplace' => (hlookup key).trans hplace',
    ?_, ?_, ?_⟩
  · refine List.forall_mem_singleton.2 ⟨hjob, (hlookup _).trans hplace, taskId, peUrl, hmem⟩
  · refine (h.owned.modify hjob hplace (fun k hk t u => ?_) fun run hmine => ?_).congr hlookup
    · simp [hk]
    · refine ⟨{ hmine.of with task := fun t u => ?_, reportVmDelete := fun k hk => ?_ },
        fun _ => rfl⟩
      · simp [hnone, htask]
        tauto
      · dsimp only at hk
        split_ifs at hk
        exact (Option.some.inj hk).symm
  · rcases hor with rfl | rfl
    · exact hstored
    · refine hstored.setRunWaiters fun r hr => ?_
      obtain rfl := Option.some.inj hr
      exact ⟨j, hkey, taskId, peUrl, hmem⟩

theorem mine_status {log : List Effect} (h : run.Mine cfg log j job) (status : Option String) :
    ({ run with status } : Run).Mine cfg log j job :=
  ⟨{ h.of with }, h.vm⟩

theorem statusRecord_status (workflow knot pipelineRkey : String) {status : Option String}
    (exit : Option String) (h : status ≠ some "complete") :
    (statusRecord workflow status exit knot pipelineRkey).status = peStatusToTangled status :=
  if_neg fun hand => h hand.1

theorem terminal_statusRecord (workflow knot pipelineRkey : String) {status : Option String}
    (exit : Option String) (h : status = some "complete" ∨ status = some "unknown") :
    (statusRecord workflow status exit knot pipelineRkey).status.terminal := by
  unfold statusRecord
  dsimp only
  split_ifs
  · rfl
  · rcases h with rfl | rfl <;> rfl

theorem finish_eq (s : State) (j : ℕ) (job : Job) (run : Run) (peUrl taskId : String)
    (output : Option String) (h : run.reportVmDelete = if cfg.marketRfp then some j else none) :
    let effects := if cfg.marketRfp then [.reported j "workflow_complete"] else []
    finish s j job run peUrl taskId output =
        ⟨persistRunLog s run.key ⟨peUrl, taskId, output.getD ""⟩, [], effects⟩ ∨
      finish s j job run peUrl taskId output =
        ⟨s, [.output j job run.key run.peUrl run.taskId], effects⟩ := by
  unfold finish
  rw [h]
  by_cases hrfp : cfg.marketRfp
  · simp only [hrfp, if_true]
    split_ifs
    · exact .inl rfl
    · exact .inr rfl
  · simp only [hrfp, if_false, Bool.false_eq_true]
    split_ifs
    · exact .inl rfl
    · exact .inr rfl

/-- A poll loop has the status of its task. -/
theorem Inv.polled (h : Inv cfg [] s) {peUrl taskId : String} {body : Option Body}
    (hp : .poll j job place peUrl taskId ∈ s.pending) (hrun : s.heap[place]? = some run) :
    Goes cfg s (.poll j job place peUrl taskId) (.polled body)
      (polled s j job place run peUrl taskId body) := by
  obtain ⟨hjob, hplace, htask⟩ := h.fits _ hp
  obtain ⟨_, hrun', hmine⟩ := h.owned.find hjob hplace
  obtain rfl := Option.some.inj (hrun.symm.trans hrun')
  have hkey : HasKey s.jobs j run.key := ⟨job, hjob, hmine.of.key_eq.symm⟩
  have hsleep : Fits s.runs s.jobs s.log (.sleep j job place) := ⟨hjob, hplace, taskId, peUrl, htask⟩
  obtain ⟨hne, hid, hurl⟩ := (hmine.of.task taskId peUrl).1 htask
  cases body with
  | none =>
    exact h.quiet hp .unreachable nofun (List.forall_mem_singleton.2 hsleep) nofun
  | some body =>
    cases body with
    | null => exact h.quiet hp .null nofun nofun nofun
    | value status exit output =>
      have howned := h.owned.modify hjob hplace (fun _ _ _ _ => Iff.rfl)
        fun run hrun => mine_status hrun status
      unfold Spindle.polled
      dsimp only
      split_ifs with hended
      · -- The task has ended.
        have hrecord := terminal_statusRecord run.workflow run.knot run.pipelineRkey exit hended
        let sent : Effect := .status j run.key
          (statusRecord run.workflow status exit run.knot run.pipelineRkey)
        let effects : List Effect :=
          sent :: if cfg.marketRfp then [.reported j "workflow_complete"] else []
        have hmove {next : List Pending}
            (hnext : next = [] ∨ next = [.output j job job.key peUrl taskId]) :
            Move cfg (.poll j job place peUrl taskId) (.polled (some (.value status exit output)))
              next effects := .ended hrecord hnext
        have htasks : ∀ e ∈ effects, e.isTask = false := by
          refine List.forall_mem_cons.2 ⟨rfl, fun e he => ?_⟩
          split_ifs at he
          · exact List.mem_singleton.1 he ▸ rfl
          · cases he
        have hstored : Stored s.jobs (s.log ++ effects) s.preRunLogs s.preLogs s.logs
            s.runWaiters := h.stored.append
          (fun e he k hk => by
            obtain rfl := Option.some.inj (((hmove (.inl rfl)).of_job he).symm.trans hk)
            exact h.number_lt hp)
          fun k key record hmem => by
            rcases List.mem_cons.1 hmem with heq | hmem
            · obtain ⟨rfl, rfl, -⟩ := Effect.status.inj heq
              exact hkey
            · split_ifs at hmem
              · exact Effect.noConfusion (List.mem_singleton.1 hmem)
              · cases hmem
        have hmem : .task j taskId peUrl ∈ s.log ++ effects := List.mem_append_left _ htask
        rcases finish_eq { s with heap := s.heap.modify place fun r => { r with status } } j job
          { run with status } peUrl taskId output (hmine.vm hne) with heq | heq <;> rw [heq]
        · exact ⟨hmove (.inl rfl), rfl, rfl, fun _ _ hplace => hplace, nofun,
            howned.append htasks, hstored.setLogs hkey hmem⟩
        · have hkey' : ({ run with status } : Run).key = job.key := hmine.of.key_eq
          rw [hkey']
          dsimp only
          rw [hid, hurl]
          exact ⟨hmove (.inr rfl), rfl, rfl, fun _ _ hplace => hplace,
            List.forall_mem_singleton.2 ⟨hjob, rfl, hmem⟩, howned.append htasks, hstored⟩
      · -- The task goes on.
        obtain ⟨hcomplete, hunknown⟩ := not_or.1 hended
        have hmove : Move cfg (.poll j job place peUrl taskId)
            (.polled (some (.value status exit output))) [.sleep j job place]
            [.status j run.key
              (statusRecord run.workflow status exit run.knot run.pipelineRkey)] :=
          .status ⟨hcomplete, hunknown⟩ (statusRecord_status _ _ _ exit hcomplete)
        have hquiet := h.quiet hp hmove (fun e he => List.mem_singleton.1 he ▸ rfl)
          (List.forall_mem_singleton.2 hsleep) fun k key record hmem => by
            obtain ⟨rfl, rfl, -⟩ := Effect.status.inj (List.mem_singleton.1 hmem)
            exact hkey
        exact { hquiet with
          owned := howned.append fun e he => List.mem_singleton.1 he ▸ rfl }

/-- A step takes an answer. -/
theorem Inv.answer (h : Inv cfg [] s) (hp : p ∈ s.pending) (hturn : answer cfg s p a = some turn) :
    Goes cfg s p a turn := by
  have hfits := h.fits p hp
  unfold Spindle.answer at hturn
  split at hturn
  · -- provision
    obtain rfl := Option.some.inj hturn
    refine h.quiet hp .provisioned (fun e he => ?_) (List.forall_mem_singleton.2 hfits)
      fun k key record hmem => ?_
    · split_ifs at he
      · exact List.mem_singleton.1 he ▸ rfl
      · cases he
    · split_ifs at hmem
      · exact Effect.noConfusion (List.mem_singleton.1 hmem)
      · cases hmem
  · obtain rfl := Option.some.inj hturn
    exact h.failSubmit hp .provisionFails
  · -- ready
    next j job peUrl viaHealth =>
    obtain rfl := Option.some.inj hturn
    refine h.quiet hp (.boots rfl ?_ ?_) nofun (List.forall_mem_singleton.2 ?_) nofun
    · split_ifs <;> rfl
    · split_ifs
      · exact .inr ⟨peUrl, rfl⟩
      · exact .inl rfl
    · split_ifs
      · exact hfits
      · exact hfits
  · obtain rfl := Option.some.inj hturn
    exact h.quiet hp (.bootFails rfl) (fun e he => List.mem_singleton.1 he ▸ rfl)
      (List.forall_mem_singleton.2 hfits)
      fun _ _ _ hmem => Effect.noConfusion (List.mem_singleton.1 hmem)
  · -- policyEngine
    next j job peUrl =>
    obtain rfl := Option.some.inj hturn
    exact h.quiet hp (.boots rfl rfl (.inr ⟨peUrl, rfl⟩)) nofun
      (List.forall_mem_singleton.2 hfits) nofun
  · obtain rfl := Option.some.inj hturn
    exact h.quiet hp (.bootFails rfl) (fun e he => List.mem_singleton.1 he ▸ rfl)
      (List.forall_mem_singleton.2 hfits)
      fun _ _ _ hmem => Effect.noConfusion (List.mem_singleton.1 hmem)
  · -- giveUp
    obtain rfl := Option.some.inj hturn
    exact h.failSubmit hp .givenUp
  · -- create
    obtain rfl := Option.some.inj hturn
    split_ifs with htask
    · refine h.failSubmit hp (.createFails fun taskId heq => ?_)
      exact Except.ok.inj heq ▸ htask
    · exact h.install hp htask
  · obtain rfl := Option.some.inj hturn
    exact h.failSubmit hp (.createFails nofun)
  · -- sleep
    next j job place =>
    obtain ⟨run, hrun, rfl⟩ := Option.map_eq_some_iff.1 hturn
    obtain ⟨hjob, hplace, taskId, peUrl, hmem⟩ := hfits
    obtain ⟨_, hrun', hmine⟩ := h.owned.find hjob hplace
    obtain rfl := Option.some.inj (hrun.symm.trans hrun')
    obtain ⟨hne, hid, hurl⟩ := (hmine.of.task taskId peUrl).1 hmem
    refine h.quiet hp .slept nofun (List.forall_mem_singleton.2 ⟨hjob, hplace, ?_⟩) nofun
    rwa [hid, hurl]
  · -- poll
    obtain ⟨run, hrun, rfl⟩ := Option.map_eq_some_iff.1 hturn
    exact h.polled hp hrun
  · -- output
    next j job key peUrl taskId text =>
    obtain rfl := Option.some.inj hturn
    obtain ⟨hjob, rfl, hmem⟩ := hfits
    have hquiet : Goes cfg s _ (.output text) ⟨s, [], []⟩ := h.quiet hp .kept nofun nofun nofun
    split_ifs
    · refine { hquiet with stored := hquiet.stored.setLogs ⟨job, hjob, rfl⟩ ?_ }
      exact List.mem_append_left _ hmem
    · exact hquiet
  · cases hturn

theorem inv_step {event : Event} (h : Inv cfg [] s) (hnew : NewKeys s event) :
    Inv cfg [] (step cfg s event) := by
  cases event with
  | trigger trigger workflows => exact h.trigger hnew
  | line j text =>
    change Inv cfg [] (if cfg.marketRfp then addLine s j text else s)
    unfold addLine
    split_ifs
    · split
      · exact h
      · next job hjob => exact ⟨h.owned, h.stored.setPreLogs ⟨job, hjob, rfl⟩, h.fits, h.atWork⟩
    · exact h
  | cancel request =>
    refine ⟨h.owned.append fun e he => List.mem_singleton.1 he ▸ rfl,
      h.stored.append (fun e he j hj => ?_) fun _ _ _ hmem =>
        Effect.noConfusion (List.mem_singleton.1 hmem), fun p hp => ?_, h.atWork⟩
    · obtain rfl := List.mem_singleton.1 he
      cases hj
    · exact (h.fits p hp).mono (fun _ _ hplace => hplace) (fun _ _ hj => hj)
        fun _ _ _ hmem => Effect.noConfusion (List.mem_singleton.1 hmem)
  | answer i a =>
    change Inv cfg [] (resume cfg s i a)
    unfold resume
    split
    · exact h
    · next p hp =>
      split
      · exact h
      · next turn hturn =>
        obtain ⟨hi, rfl⟩ := List.getElem?_eq_some_iff.1 hp
        exact h.after (List.getElem_cons_eraseIdx_perm hi)
          (h.answer (List.getElem_mem hi) hturn)

/-! ## Phases -/

/-- The steps that are at work for a job. -/
def workOf (j : ℕ) (pending : List Pending) : List Pending :=
  pending.filter fun p => p.atWork = some j

/-- The steps at work for a job, and what it has done. -/
def Phases (Phase : ℕ → List Pending → List Effect → Prop) (s : State) : Prop :=
  ∀ j < s.jobs.length, Phase j (workOf j s.pending) (ofJob j s.log)

theorem workOf_eq_nil {pending : List Pending} {k : ℕ}
    (h : k ∉ pending.filterMap Pending.atWork) : workOf k pending = [] := by
  refine List.filter_eq_nil_iff.2 fun p hp hk => h ?_
  exact List.mem_filterMap.2 ⟨p, hp, of_decide_eq_true hk⟩

theorem ofJob_eq_nil {log : List Effect} {k : ℕ} (h : ∀ e ∈ log, e.job ≠ some k) :
    ofJob k log = [] :=
  List.filter_eq_nil_iff.2 fun e he hk => h e he (of_decide_eq_true hk)

theorem exists_split {l : List Pending} {i : ℕ} (h : l[i]? = some p) :
    ∃ l₁ l₂, l = l₁ ++ p :: l₂ ∧ l.eraseIdx i = l₁ ++ l₂ := by
  obtain ⟨hi, rfl⟩ := List.getElem?_eq_some_iff.1 h
  refine ⟨l.take i, l.drop (i + 1), ?_, List.eraseIdx_eq_take_drop_succ l i⟩
  rw [← List.drop_eq_getElem_cons hi, List.take_append_drop]

variable {Phase : ℕ → List Pending → List Effect → Prop} {waiting : List Job}

/-- The first step of a job. -/
def firstStep (cfg : Config) (j : ℕ) (job : Job) : Pending :=
  if cfg.marketRfp then .provision j job else .create j job cfg.policyEngineUrl

theorem firstStep_atWork : (firstStep cfg j job).atWork = some j := by
  unfold firstStep
  split_ifs <;> rfl

theorem Phases.submit (hphases : Phases Phase s) (h : Inv cfg (job :: waiting) s)
    (hfirst : ∀ j job, Phase j [firstStep cfg j job] [broadcast j job (some "submitted") none]) :
    Phases Phase (submit cfg s job) := by
  intro k hk
  have hlt : k < s.jobs.length + 1 := by
    simpa [Spindle.submit] using hk
  change Phase k (workOf k (firstStep cfg s.jobs.length job :: s.pending))
    (ofJob k (s.log ++ [broadcast s.jobs.length job (some "submitted") none]))
  rw [ofJob_append, workOf, List.filter_cons, firstStep_atWork]
  rcases Nat.lt_succ_iff_lt_or_eq.1 hlt with hold | rfl
  · have hne : s.jobs.length ≠ k := fun heq => Nat.lt_irrefl _ (heq ▸ hold)
    have hnone : ofJob k [broadcast s.jobs.length job (some "submitted") none] = [] :=
      ofJob_eq_nil fun e he hj =>
        hne (Option.some.inj ((List.mem_singleton.1 he ▸ hj : (broadcast _ _ _ _).job = some k)))
    rw [hnone, List.append_nil, if_neg (by simpa using hne)]
    exact hphases k hold
  · have hnone : ofJob s.jobs.length s.log = [] :=
      ofJob_eq_nil fun e he hj => h.no_effects hj he
    have hwork : s.pending.filter (fun p => p.atWork = some s.jobs.length) = [] :=
      workOf_eq_nil fun hmem => by
        obtain ⟨p, hp, hpwork⟩ := List.mem_filterMap.1 hmem
        have hnumber : p.number = s.jobs.length := by
          cases p <;> first | exact Option.some.inj hpwork | cases hpwork
        exact Nat.lt_irrefl _ (hnumber ▸ h.number_lt hp)
    rw [hnone, hwork, if_pos (by simp), List.nil_append]
    have hself : ofJob s.jobs.length [broadcast s.jobs.length job (some "submitted") none] =
        [broadcast s.jobs.length job (some "submitted") none] := by
      simp [ofJob, broadcast, Effect.job]
    rw [hself]
    exact hfirst _ _

theorem Phases.submitAll (hphases : Phases Phase s) (h : Inv cfg waiting s)
    (hfirst : ∀ j job, Phase j [firstStep cfg j job] [broadcast j job (some "submitted") none]) :
    Phases Phase (waiting.foldl (Spindle.submit cfg) s) := by
  induction waiting generalizing s with
  | nil => exact hphases
  | cons job waiting ih => exact ih (hphases.submit h hfirst) h.submit

theorem register_eq (cfg : Config) (s : State) (job : Job) : ∃ heap runs runWaiters,
    register cfg s job = { s with heap, runs, runWaiters } := by
  unfold register
  split_ifs
  · exact ⟨_, _, _, rfl⟩
  · obtain ⟨w, hw, -⟩ := getRunWaiter_eq { s with
      heap := s.heap ++ [placeholder cfg job], runs := set job.key s.heap.length s.runs } job.key
    exact ⟨_, _, w, hw⟩

theorem Phases.registerAll (hphases : Phases Phase s) (news : List Job) :
    Phases Phase (news.foldl (register cfg) s) := by
  induction news generalizing s with
  | nil => exact hphases
  | cons job news ih =>
    obtain ⟨heap, runs, runWaiters, heq⟩ := register_eq cfg s job
    rw [List.foldl_cons, heq]
    exact ih hphases

/-- A step that is at work goes on, the other ones stay. -/
theorem Phases.answer {i : ℕ} (hphases : Phases Phase s) (h : Inv cfg [] s)
    (hp : s.pending[i]? = some p) (hgoes : Goes cfg s p a turn)
    (hmove : p.atWork = some p.number → Phase p.number [p] (ofJob p.number s.log) →
      Phase p.number (workOf p.number turn.next) (ofJob p.number s.log ++ turn.effects)) :
    Phases Phase (turn.after (s.pending.eraseIdx i)) := by
  obtain ⟨l₁, l₂, hsplit, herase⟩ := exists_split hp
  intro k hk
  have hold := hphases k (by rwa [Turn.after, hgoes.jobs] at hk)
  have hwork := h.atWork
  simp only [Turn.after, hgoes.log, herase]
  rw [ofJob_append, workOf, List.filter_append, List.filter_append]
  rw [hsplit, workOf, List.filter_append, List.filter_cons] at hold
  rw [hsplit, List.filterMap_append] at hwork
  by_cases hpk : p.atWork = some k
  · have hnumber : p.number = k := by
      cases p <;> first | exact Option.some.inj hpk | cases hpk
    subst hnumber
    rw [List.filterMap_cons_some hpk, List.nodup_append] at hwork
    obtain ⟨-, hnodup, hdisjoint⟩ := hwork
    have hl₁ : l₁.filter (fun q => q.atWork = some p.number) = [] :=
      workOf_eq_nil fun hmem => hdisjoint _ hmem _ List.mem_cons_self rfl
    have hl₂ : l₂.filter (fun q => q.atWork = some p.number) = [] :=
      workOf_eq_nil (List.nodup_cons.1 hnodup).1
    have hself : ofJob p.number turn.effects = turn.effects :=
      List.filter_eq_self.2 fun e he => decide_eq_true (hgoes.move.of_job he)
    rw [hl₁, hl₂, if_pos (decide_eq_true hpk)] at hold
    rw [hl₁, hl₂, hself, List.append_nil, List.append_nil]
    exact hmove hpk hold
  · rw [if_neg (by simpa using hpk)] at hold
    have hnext : turn.next.filter (fun q => q.atWork = some k) = [] :=
      workOf_eq_nil fun hmem => by
        have hmem' := hgoes.move.atWork.subset hmem
        exact hpk (Option.mem_toList.1 hmem')
    have heffects : ofJob k turn.effects = [] := ofJob_eq_nil fun e he hj =>
      hpk ((hgoes.move.atWork_of_effect he).trans ((hgoes.move.of_job he).symm.trans hj))
    rw [hnext, heffects, List.append_nil, List.nil_append]
    exact hold

/-- What a job keeps in its first step and in every move, it keeps in every step. -/
theorem phases_step {event : Event} (hphases : Phases Phase s) (h : Inv cfg [] s)
    (hnew : NewKeys s event)
    (hfirst : ∀ j job, Phase j [firstStep cfg j job] [broadcast j job (some "submitted") none])
    (hmove : ∀ i p a next effects, event = .answer i a → s.pending[i]? = some p →
      Move cfg p a next effects → Phase p.number [p] (ofJob p.number s.log) →
      p.atWork = some p.number →
      Phase p.number (workOf p.number next) (ofJob p.number s.log ++ effects)) :
    Phases Phase (step cfg s event) := by
  cases event with
  | trigger trigger workflows =>
    exact (hphases.registerAll _).submitAll (h.registerTrigger hnew) hfirst
  | line j text =>
    change Phases Phase (if cfg.marketRfp then addLine s j text else s)
    unfold addLine
    split_ifs
    · split <;> exact hphases
    · exact hphases
  | cancel request =>
    intro j hj
    have hnone : ofJob j [.cancelReplied request (cancelPipeline request)] = [] := rfl
    have hold := hphases j hj
    rw [← List.append_nil (ofJob j s.log), ← hnone, ← ofJob_append] at hold
    exact hold
  | answer i a =>
    change Phases Phase (resume cfg s i a)
    unfold resume
    split
    · exact hphases
    · next p hp =>
      split
      · exact hphases
      · next turn hturn =>
        have hgoes := h.answer (List.mem_of_getElem? hp) hturn
        exact hphases.answer h hp hgoes fun hwork hphase =>
          hmove i p a _ _ rfl hp hgoes.move hphase hwork

end

end ComputeContract.Spindle
