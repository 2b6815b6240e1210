import Mathlib.Data.List.Infix
import ComputeContract.Lib.AssocList
import ComputeContract.Lib.Along

/-!
# Pipelines

The spindle runs the workflows of a trigger: each is registered under a run key, submitted to a
policy engine, which may need a VM first, and polled until its task ends. Submissions, polls and
requests run in between one another: each is at an `await`. The `Run` objects are shared: the
table of runs, the submission and the poll loop hold references to them.

* `triggerWorkflows`: the workflows of a trigger are registered and submitted;
* `answer`: what a submission or a poll loop does with an answer;
* `Settles`, `Isolated`: what should hold in every state.
-/

namespace ComputeContract.Spindle

open AssocList

/-! ## Statuses -/

/-- The status of a `sh.tangled.pipeline.status` record. -/
inductive Status
  | pending
  | running
  | success
  | failed
  | cancelled
  deriving DecidableEq

def Status.terminal : Status → Bool
  | .success | .failed | .cancelled => true
  | _ => false

/-- The engine may send any status, or none. -/
def peStatusToTangled (peStatus : Option String) : Status :=
  if peStatus = some "submitted" then .pending
  else if peStatus = some "in_progress" then .running
  else if peStatus = some "complete" then .success
  else .failed

structure PipelineStatusRecord where
  workflow : String
  status : Status
  pipeline : Option String
  deriving DecidableEq

/-- The record that `broadcastStatus` sends. -/
def statusRecord (workflow : String) (peStatus exitStatus : Option String)
    (knot pipelineRkey : String) : PipelineStatusRecord where
  workflow := workflow
  status :=
    if peStatus = some "complete" ∧ exitStatus.getD "" ≠ "" ∧ exitStatus ≠ some "success" then
      .failed
    else peStatusToTangled peStatus
  pipeline :=
    if knot ≠ "" ∧ pipelineRkey ≠ "" then
      some ("at://did:web:" ++ knot ++ "/sh.tangled.pipeline/" ++ pipelineRkey)
    else none

/-! ## Data -/

/-- The fields of a trigger that a run keeps. -/
structure TriggerPayload where
  knot : String
  pipelineRkey : String
  actor : String
  repoDid : String
  ref : String
  deriving DecidableEq

/-- The stems of the workflow files, the keys of a `Map`. -/
structure Workflows where
  stems : List String
  nodup : stems.Nodup

def runKey (knot pipelineRkey workflow : String) : String :=
  knot ++ "/" ++ pipelineRkey ++ "/" ++ workflow

/-- A `Run`; `reportVmDelete` is known by the submission whose VM it is about. -/
structure Run where
  taskId : String
  workflow : String
  knot : String
  pipelineRkey : String
  actor : String
  repoDid : String
  ref : String
  status : Option String
  peUrl : String
  reportVmDelete : Option ℕ
  deriving DecidableEq

def Run.key (run : Run) : String := runKey run.knot run.pipelineRkey run.workflow

/-- A workflow of a trigger. -/
structure Job where
  trigger : TriggerPayload
  stem : String
  deriving DecidableEq

def Job.key (job : Job) : String := runKey job.trigger.knot job.trigger.pipelineRkey job.stem

/-- The console output of a task. -/
structure RunLog where
  peUrl : String
  taskId : String
  output : String
  deriving DecidableEq

inductive RunReady
  | ready
  | failed
  deriving DecidableEq

/-- The fields of a `PolicyEngineStatus` that are read, where the body has them. -/
inductive Body
  | null
  | value (status exitStatus consoleOutput : Option String)

/-- A submission or a poll loop at an `await`, with the number of the job. -/
inductive Pending
  /-- From the login up to `submitAccept` -/
  | provision (j : ℕ) (job : Job)
  /-- The race of the registered key and `/health` -/
  | ready (j : ℕ) (job : Job) (peUrl : String)
  /-- `waitForPolicyEngine` -/
  | policyEngine (j : ℕ) (job : Job) (peUrl : String)
  /-- `reportVmDelete`, before the error is thrown -/
  | giveUp (j : ℕ) (job : Job) (err : String)
  /-- `/request/create` -/
  | create (j : ℕ) (job : Job) (peUrl : String)
  /-- The timeout of `trackRun` -/
  | sleep (j : ℕ) (job : Job) (run : ℕ)
  /-- `/request/status` -/
  | poll (j : ℕ) (job : Job) (run : ℕ) (peUrl taskId : String)
  /-- `/request/console_output` -/
  | output (j : ℕ) (job : Job) (key peUrl taskId : String)
  deriving DecidableEq

/-- What is awaited comes. -/
inductive Answer
  /-- Whether there is a VM, and the URL of its engine. -/
  | provisioned (result : Except String (Bool × String))
  /-- Whether `/health` came first. -/
  | ready (result : Except String Bool)
  | policyEngine (result : Except String Unit)
  | reported
  /-- The id of the task. -/
  | created (result : Except String String)
  | slept
  /-- The body, unless the request or its parse fails. -/
  | polled (body : Option Body)
  | output (text : Option String)

structure CancelRequest where
  pipeline : Option String
  repo : Option String
  workflow : Option String
  deriving DecidableEq

inductive Effect
  /-- A status that a job broadcasts, under the key of its run. -/
  | status (j : ℕ) (key : String) (record : PipelineStatusRecord)
  /-- A VM was provisioned for the job. -/
  | provisioned (j : ℕ)
  /-- The engine has a task for the job. -/
  | task (j : ℕ) (taskId peUrl : String)
  /-- `reportVmDelete` of the job is called. -/
  | reported (j : ℕ) (reason : String)
  | cancelReplied (request : Option CancelRequest) (status : ℕ)
  deriving DecidableEq

structure State where
  /-- The `Run` objects, in the order in which they were made. -/
  heap : List Run
  /-- The places of the runs in the heap. -/
  runs : List (String × ℕ)
  /-- The arrays `preLogs` of the jobs. -/
  lines : List (List String)
  /-- The job whose array is stored. -/
  preRunLogs : List (String × ℕ)
  /-- `logsDB.preLogs` -/
  preLogs : List (String × ℕ)
  /-- `logsDB.logs` -/
  logs : List (String × RunLog)
  runWaiters : List (String × Option RunReady)
  /-- The jobs that were submitted, by their numbers. -/
  jobs : List Job
  pending : List Pending
  log : List Effect
  deriving DecidableEq

structure Config where
  policyEngineUrl : String
  /-- `COMPUTE_PROVIDER` is `market.rfp`. -/
  marketRfp : Bool

/-! ## Triggers -/

section
variable (cfg : Config) (s : State)

/-- The run before its task exists. -/
def placeholder (job : Job) : Run :=
  ⟨"", job.stem, job.trigger.knot, job.trigger.pipelineRkey, job.trigger.actor,
    job.trigger.repoDid, job.trigger.ref, some "submitted", cfg.policyEngineUrl, none⟩

def getRunWaiter (key : String) : State :=
  match s.runWaiters.lookup key with
  | none => { s with runWaiters := set key none s.runWaiters }
  | some _ => s

def settleRunWaiter (key : String) (r : RunReady) : State :=
  match s.runWaiters.lookup key with
  | some none => { s with runWaiters := set key (some r) s.runWaiters }
  | _ => s

/-- A workflow is registered, unless its key is taken. -/
def register (job : Job) : State :=
  if job.key ∈ keys s.runs then s
  else getRunWaiter { s with
    heap := s.heap ++ [placeholder cfg job]
    runs := set job.key s.heap.length s.runs } job.key

/-- The status that a job broadcasts. -/
def broadcast (j : ℕ) (job : Job) (peStatus exitStatus : Option String) : Effect :=
  .status j job.key
    (statusRecord job.stem peStatus exitStatus job.trigger.knot job.trigger.pipelineRkey)

/-- `submitWorkflows` for one workflow, up to its first `await`. -/
def submit (job : Job) : State :=
  let j := s.jobs.length
  { s with
    jobs := s.jobs ++ [job]
    lines := s.lines ++ [[]]
    preRunLogs := if cfg.marketRfp then set job.key j s.preRunLogs else s.preRunLogs
    pending :=
      (if cfg.marketRfp then .provision j job else .create j job cfg.policyEngineUrl) :: s.pending
    log := s.log ++ [broadcast j job (some "submitted") none] }

/-- The workflow files of a trigger that was accepted are there. -/
def triggerWorkflows (trigger : TriggerPayload) (workflows : Workflows) : State :=
  let jobs := workflows.stems.map (Job.mk trigger)
  jobs.foldl (submit cfg) (jobs.foldl (register cfg) s)

/-! ## Answers -/

/-- What comes of an answer: the tables, what is awaited next, and what was done. -/
structure Turn where
  state : State
  next : List Pending
  effects : List Effect

/-- The other steps stay as they are. -/
def Turn.after (turn : Turn) (pending : List Pending) : State :=
  { turn.state with
    pending := turn.next ++ pending
    log := turn.state.log ++ turn.effects }

def includes (s t : String) : Bool := t.toList <:+: s.toList

/-- The error that ended a submission. -/
def exitOfError (msg : String) : String :=
  if includes msg "No bids received" || includes msg "No scoreable bid" then "no-bid" else "error"

/-- A submission ends without a task. -/
def failSubmit (j : ℕ) (job : Job) (err : String) : Turn :=
  ⟨settleRunWaiter s job.key .failed, [], [broadcast j job (some "unknown") (some (exitOfError err))]⟩

/-- The task exists: the run is changed in place, or made. -/
def install (j : ℕ) (job : Job) (taskId peUrl : String) : Turn :=
  let reportVmDelete := if cfg.marketRfp then some j else none
  let (run, heap) := match s.runs.lookup job.key with
    | some run => (run, s.heap)
    | none => (s.heap.length, s.heap ++ [placeholder cfg job])
  ⟨settleRunWaiter { s with
      heap := heap.modify run fun r =>
        { r with taskId, peUrl, reportVmDelete, status := some "submitted" }
      runs := set job.key run s.runs } job.key .ready,
    [.sleep j job run], [.task j taskId peUrl]⟩

def persistRunLog (key : String) (log : RunLog) : State :=
  { s with logs := set key log s.logs }

/-- The task has ended: the VM is given up, and the output is kept. -/
def finish (j : ℕ) (job : Job) (run : Run) (peUrl taskId : String)
    (consoleOutput : Option String) : Turn :=
  let effects := match run.reportVmDelete with
    | some k => [.reported k "workflow_complete"]
    | none => []
  let output := consoleOutput.getD ""
  if output ≠ "" then ⟨persistRunLog s run.key ⟨peUrl, taskId, output⟩, [], effects⟩
  else ⟨s, [.output j job run.key run.peUrl run.taskId], effects⟩

/-- `trackRun` has the status of the task; `null` has no property `status`. -/
def polled (j : ℕ) (job : Job) (ref : ℕ) (run : Run) (peUrl taskId : String) : Option Body → Turn
  | none => ⟨s, [.sleep j job ref], []⟩
  | some .null => ⟨s, [], []⟩
  | some (.value status exitStatus consoleOutput) =>
    let s := { s with heap := s.heap.modify ref fun r => { r with status } }
    let sent := .status j run.key
      (statusRecord run.workflow status exitStatus run.knot run.pipelineRkey)
    if status = some "complete" ∨ status = some "unknown" then
      let turn := finish s j job { run with status } peUrl taskId consoleOutput
      { turn with effects := sent :: turn.effects }
    else ⟨s, [.sleep j job ref], [sent]⟩

/-- A submission or a poll loop takes an answer; `none` for an answer to something else. -/
def answer : Pending → Answer → Option Turn
  | .provision j job, .provisioned (.ok (vm, peUrl)) =>
    some ⟨s, [.ready j job peUrl], if vm then [.provisioned j] else []⟩
  | .provision j job, .provisioned (.error err) => some (failSubmit s j job err)
  | .ready j job peUrl, .ready (.ok viaHealth) =>
    some ⟨s, [if viaHealth then .create j job peUrl else .policyEngine j job peUrl], []⟩
  | .ready j job _, .ready (.error err) =>
    some ⟨s, [.giveUp j job err], [.reported j "policy_engine_never_came_up"]⟩
  | .policyEngine j job peUrl, .policyEngine (.ok ()) => some ⟨s, [.create j job peUrl], []⟩
  | .policyEngine j job _, .policyEngine (.error err) =>
    some ⟨s, [.giveUp j job err], [.reported j "policy_engine_never_came_up"]⟩
  | .giveUp j job err, .reported => some (failSubmit s j job err)
  | .create j job peUrl, .created (.ok taskId) =>
    some (if taskId = "" then failSubmit s j job "no task ID"
      else install cfg s j job taskId peUrl)
  | .create j job _, .created (.error err) => some (failSubmit s j job err)
  | .sleep j job ref, .slept =>
    s.heap[ref]?.map fun run => ⟨s, [.poll j job ref run.peUrl run.taskId], []⟩
  | .poll j job ref peUrl taskId, .polled body =>
    s.heap[ref]?.map fun run => polled s j job ref run peUrl taskId body
  | .output _ _ key peUrl taskId, .output text =>
    some ⟨if text.getD "" ≠ "" then persistRunLog s key ⟨peUrl, taskId, text.getD ""⟩ else s, [], []⟩
  | _, _ => none

/-! ## Runs -/

/-- The status of the reply to `cancelPipeline`: its handler reads a `trigger` that there is
    not. -/
def cancelPipeline (request : Option CancelRequest) : ℕ :=
  match request with
  | none => 400
  | some r =>
    if r.pipeline.getD "" = "" ∨ r.repo.getD "" = "" ∨ r.workflow.getD "" = "" then 400 else 500

inductive Event
  | trigger (trigger : TriggerPayload) (workflows : Workflows)
  /-- A line of the provisioning of a job. -/
  | line (j : ℕ) (text : String)
  | cancel (request : Option CancelRequest)
  | answer (i : ℕ) (a : Answer)

/-- A line is added to the array of the job, which is stored. -/
def addLine (j : ℕ) (text : String) : State :=
  match s.jobs[j]? with
  | none => s
  | some job => { s with
      lines := s.lines.modify j (· ++ [text])
      preLogs := set job.key j s.preLogs }

/-- The step at `i` takes an answer. -/
def resume (i : ℕ) (a : Answer) : State :=
  match s.pending[i]? with
  | none => s
  | some p =>
    match answer cfg s p a with
    | none => s
    | some turn => turn.after (s.pending.eraseIdx i)

def step : Event → State
  | .trigger trigger workflows => triggerWorkflows cfg s trigger workflows
  | .line j text => if cfg.marketRfp then addLine s j text else s
  | .cancel request => { s with log := s.log ++ [.cancelReplied request (cancelPipeline request)] }
  | .answer i a => resume cfg s i a

end

def start : State := ⟨[], [], [], [], [], [], [], [], [], []⟩

/-! ## What should hold -/

/-- The job that an effect is of. -/
def Effect.job : Effect → Option ℕ
  | .status j _ _ | .provisioned j | .task j _ _ | .reported j _ => some j
  | .cancelReplied _ _ => none

def ofJob (j : ℕ) (log : List Effect) : List Effect := log.filter fun e => e.job = some j

def Effect.sent : Effect → Option Status
  | .status _ _ record => some record.status
  | _ => none

def Effect.reports : Effect → Bool
  | .reported _ _ => true
  | _ => false

/-- The statuses that are broadcast. -/
def statuses (effects : List Effect) : List Status := effects.filterMap Effect.sent

/-- A terminal status is broadcast. -/
def Ended (effects : List Effect) : Prop := ∃ status ∈ statuses effects, status.terminal

/-- How often `reportVmDelete` is called. -/
def reports (effects : List Effect) : ℕ := effects.countP Effect.reports

def Pending.job : Pending → Job
  | .provision _ job | .ready _ job _ | .policyEngine _ job _ | .giveUp _ job _ | .create _ job _
  | .sleep _ job _ | .poll _ job _ _ _ | .output _ job _ _ _ => job

/-- The number of the job. -/
def Pending.number : Pending → ℕ
  | .provision j _ | .ready j _ _ | .policyEngine j _ _ | .giveUp j _ _ | .create j _ _
  | .sleep j _ _ | .poll j _ _ _ _ | .output j _ _ _ _ => j

/-- The run that a poll loop is about. -/
def Pending.polls : Pending → Option ℕ
  | .sleep _ _ run | .poll _ _ run _ _ => some run
  | _ => none

/-- The VM is given up, the error is not thrown yet. -/
def Pending.givesUp : Pending → Bool
  | .giveUp _ _ _ => true
  | _ => false

/-- A request to cancel names a job. -/
def CancelRequest.names (request : CancelRequest) (job : Job) : Prop :=
  request.pipeline = some
      ("at://did:web:" ++ job.trigger.knot ++ "/sh.tangled.pipeline/" ++ job.trigger.pipelineRkey) ∧
    request.workflow = some job.stem

/-- A run comes to one terminal status, and gives up its VM then. -/
structure Settles (s : State) : Prop where
  /-- No status follows a terminal one. -/
  last : ∀ j, ∀ status ∈ (statuses (ofJob j s.log)).dropLast, ¬ status.terminal
  /-- Polling stops. -/
  stops : ∀ j, Ended (ofJob j s.log) → ∀ p ∈ s.pending, p.number = j → p.polls = none
  cancelled : ∀ request job j, .cancelReplied (some request) 200 ∈ s.log → request.names job →
    s.jobs[j]? = some job → Ended (ofJob j s.log)
  reported : ∀ j, .provisioned j ∈ s.log → Ended (ofJob j s.log) → reports (ofJob j s.log) = 1
  /-- The VM is not given up before, but for an error that is about to be thrown. -/
  early : ∀ j, reports (ofJob j s.log) ≠ 0 → Ended (ofJob j s.log) ∨
    ∃ p ∈ s.pending, p.number = j ∧ p.givesUp

/-- The run is that of the job. -/
structure Run.Of (log : List Effect) (j : ℕ) (job : Job) (run : Run) : Prop where
  workflow : run.workflow = job.stem
  knot : run.knot = job.trigger.knot
  pipelineRkey : run.pipelineRkey = job.trigger.pipelineRkey
  actor : run.actor = job.trigger.actor
  repoDid : run.repoDid = job.trigger.repoDid
  ref : run.ref = job.trigger.ref
  /-- It has the task of the job, and no other one. -/
  task : ∀ taskId peUrl, .task j taskId peUrl ∈ log ↔
    run.taskId ≠ "" ∧ run.taskId = taskId ∧ run.peUrl = peUrl
  reportVmDelete : ∀ k, run.reportVmDelete = some k → k = j

/-- What is held under a run key is of one job. -/
structure HeldBy (s : State) (key : String) (run : Run) (j : ℕ) (job : Job) : Prop where
  submitted : s.jobs[j]? = some job
  runs : job.key = key
  of : run.Of s.log j job
  preRunLogs : ∀ k, s.preRunLogs.lookup key = some k → k = j
  preLogs : ∀ k, s.preLogs.lookup key = some k → k = j
  logs : ∀ log, s.logs.lookup key = some log → .task j log.taskId log.peUrl ∈ s.log
  statuses : ∀ k record, .status k key record ∈ s.log → k = j
  /-- The waiter is settled by the job. -/
  ready : s.runWaiters.lookup key = some (some .ready) → run.taskId ≠ ""
  failed : s.runWaiters.lookup key = some (some .failed) → Ended (ofJob j s.log)

structure Isolated (s : State) : Prop where
  held : ∀ key place, s.runs.lookup key = some place → ∃ run j job,
    s.heap[place]? = some run ∧ HeldBy s key run j job
  /-- A task is polled until its terminal status, and its VM is given up then. -/
  tracked : ∀ j taskId peUrl, .task j taskId peUrl ∈ s.log →
    (∃ p ∈ s.pending, p.number = j ∧ ∃ place run, p.polls = some place ∧
      s.heap[place]? = some run ∧ run.taskId = taskId ∧ run.peUrl = peUrl) ∨
    Ended (ofJob j s.log) ∧ (.provisioned j ∈ s.log → ∃ reason, .reported j reason ∈ s.log)
  injective : ∀ (j j' : ℕ) (job job' : Job), s.jobs[j]? = some job → s.jobs[j']? = some job' →
    job.key = job'.key → job.trigger.knot = job'.trigger.knot ∧
      job.trigger.pipelineRkey = job'.trigger.pipelineRkey ∧ job.stem = job'.stem

/-- The run keys of a trigger are new. -/
def NewKeys (s : State) (e : Event) : Prop :=
  ∀ trigger workflows, e = .trigger trigger workflows → ∀ stem ∈ workflows.stems,
    (Job.mk trigger stem).key ∉ keys s.runs

/-- No status is broadcast as failed before the end. -/
def Body.Plain : Body → Prop
  | .null => True
  | .value status _ _ => peStatusToTangled status = .failed → status = some "unknown"

end ComputeContract.Spindle
