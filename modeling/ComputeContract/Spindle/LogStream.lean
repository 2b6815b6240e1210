import ComputeContract.Spindle.Console
import ComputeContract.Spindle.Pipeline

/-!
# The log stream

A `/logs` socket shows a run from its provisioning to the end of its console. While the run is
being provisioned, the socket sends the lines that are there, is woken for every line that is
appended, and waits until the submission has ended; later it sends the lines that are there and
goes on. Then it sends the lines of the console stream, or those that are stored when the stream
had none. Frames start and end steps, and carry lines in the step that is open.

* `Out.processLine`: the frames for a line of the console;
* `step`: the run, and one socket of it; others change nothing for it.
-/

namespace ComputeContract.Spindle.LogStream

open Chunks

/-! ## Frames -/

/-- A frame, without its time. -/
inductive Frame
  | start (stepId : ℕ) (content : String) (stepKind : ℕ)
  | done (stepId : ℕ)
  | data (stepId : ℕ) (content : String)
  deriving DecidableEq

def StepKindSystem : ℕ := 0
def StepKindUser : ℕ := 1

/-- What a socket has sent, and its counters of steps. -/
structure Out where
  isOpen : Bool
  nextStepId : ℕ
  currentStepId : ℕ
  frames : List Frame
  deriving DecidableEq

namespace Out

variable (o : Out)

def send (frame : Frame) : Out :=
  if o.isOpen then { o with frames := o.frames ++ [frame] } else o

def openStep (name : String) (kind : ℕ) : Out :=
  { o with nextStepId := o.nextStepId + 1, currentStepId := o.nextStepId + 1 }.send
    (.start (o.nextStepId + 1) name kind)

def closeStep : Out := { o.send (.done o.currentStepId) with currentStepId := 0 }

def sendData (content : String) : Out := o.send (.data o.currentStepId content)

/-- A line of the console. -/
def processLine (raw : String) : Out :=
  if startsWith "##[group]".toList raw.toList then
    (if o.currentStepId ≠ 0 then o.closeStep else o).openStep (String.ofList (raw.toList.drop 9))
      StepKindUser
  else if startsWith "##[endgroup]".toList raw.toList then
    if o.currentStepId ≠ 0 then o.closeStep else o
  else if startsWith "##[error]".toList raw.toList then
    -- An error outside of a group is put into a step of its own.
    if o.currentStepId = 0 then ((o.openStep "Error" StepKindUser).sendData raw).closeStep
    else o.sendData raw
  else o.sendData raw

/-- A new socket, with the step of the workflow. -/
def hello (workflow : String) : Out :=
  Out.send ⟨true, 0, 0, []⟩ (.start 0 workflow StepKindSystem)

/-- The step `Provisioning`, with its lines so far. -/
def provision (lines : List String) : Out :=
  lines.foldl sendData (o.openStep "Provisioning" StepKindUser)

/-- The submission failed. -/
def fail : Out :=
  ((o.openStep "Error" StepKindUser).sendData
    "##[error] workflow submission failed; no compute was provisioned").closeStep

/-- The end of the stream: the step that is still open ends, and that of the workflow. -/
def ending : Out :=
  (if o.currentStepId ≠ 0 then o.closeStep else o).send (.done 0)

end Out

/-! ## The socket and its run -/

/-- What the socket waits for. -/
inductive Phase
  /-- `await waiter.promise`, with so many lines sent. -/
  | provisioning (sent : ℕ)
  /-- The response of the console stream. -/
  | fetching
  /-- `await reader.read()` -/
  | reading (reader : ReaderState)
  /-- The status of the task. -/
  | status
  /-- The output of the task. -/
  | output
  | closed

def Phase.isClosed : Phase → Bool
  | .closed => true
  | _ => false

structure Socket where
  out : Out
  peLines : ℕ
  phase : Phase

structure State where
  /-- The arrays `preLogs` of the submissions of the run. -/
  arrays : List (List String)
  /-- The array that is stored for the run. -/
  preRunLogs : Option ℕ
  /-- `logsDB.preLogs` -/
  preLogs : Option ℕ
  /-- `logsDB.logs` -/
  logs : Option String
  taskId : String
  /-- The waiter, if there is one, and how it was settled. -/
  waiter : Option (Option RunReady)
  socket : Option Socket

/-- The lines that are stored for the run. -/
def State.lines (s : State) : List String :=
  match s.preRunLogs.or s.preLogs with
  | some j => (s.arrays[j]?).getD []
  | none => []

/-- Not empty lines of a text. -/
def linesOf (text : String) : List String :=
  ((text.toList.splitOn '\n').filter (· ≠ [])).map String.ofList

inductive Event
  /-- The run is submitted, with a new array for its lines. -/
  | submit
  /-- `onLog` of a submission. -/
  | line (job : ℕ) (text : String)
  /-- The task exists. -/
  | installed (taskId : String)
  /-- The submission failed. -/
  | failed
  /-- `persistRunLog` -/
  | persist (output : String)
  | connect
  /-- The socket goes on after its waiter was settled. -/
  | woken
  /-- The response of the console stream, with a body if it is ok. -/
  | response (ok : Bool)
  | chunk (bytes : Bytes)
  /-- The stream has ended, or cannot be read. -/
  | ended
  /-- The console output in the status of the task, if it could be had. -/
  | status (consoleOutput : Option String)
  /-- The output of the task, if it could be had. -/
  | output (text : Option String)
  | disconnect
  deriving DecidableEq

section
variable (workflow : String) (s : State)

/-- Lines of the console are sent. -/
def Socket.process (k : Socket) (lines : List String) : Socket :=
  { k with out := lines.foldl Out.processLine k.out, peLines := k.peLines + lines.length }

/-- After the console: the lines that are stored are sent if there were none, and the stream
    ends. -/
def Socket.finish (k : Socket) : Socket :=
  let k := if k.peLines = 0 then k.process (linesOf (s.logs.getD "")) else k
  { k with out := { k.out.ending with isOpen := false }, phase := .closed }

/-- After the console stream. -/
def Socket.afterStream (k : Socket) : Socket :=
  if k.peLines = 0 then { k with phase := .status } else k.finish s

/-- The socket opens. -/
def connected : Socket :=
  let out := Out.hello workflow
  if s.taskId = "" ∧ s.waiter = some none then
    ⟨out.provision s.lines, 0, .provisioning s.lines.length⟩
  else ⟨if s.lines = [] then out else (out.provision s.lines).closeStep, 0, .fetching⟩

/-- The lines that were not sent yet. -/
def flush (k : Socket) : Socket :=
  match k.phase with
  | .provisioning sent =>
    { k with
      out := (s.lines.drop sent).foldl Out.sendData k.out
      phase := .provisioning (max sent s.lines.length) }
  | _ => k

/-- The waiter of the socket was settled. -/
def Socket.wake (k : Socket) (r : RunReady) : Socket :=
  let out := (flush s k).out.closeStep
  if !out.isOpen then { k with out, phase := .closed }
  else { k with out := if r = .failed then out.fail else out, phase := .fetching }

def settle (r : RunReady) : State :=
  match s.waiter with
  | some none => { s with waiter := some (some r) }
  | _ => s

/-- The next state, if the event can happen. -/
def step : Event → Option State
  | .submit => some { s with
      arrays := s.arrays ++ [[]]
      preRunLogs := some s.arrays.length }
  | .line job text =>
    if job < s.arrays.length then
      let s := { s with arrays := s.arrays.modify job (· ++ [text]), preLogs := some job }
      some { s with socket := s.socket.map (flush s) }
    else none
  | .installed taskId => some { settle s .ready with taskId }
  | .failed => some (settle s .failed)
  | .persist output => some { s with logs := some output }
  | .connect =>
    match s.socket with
    | none => some { s with socket := some (connected workflow s) }
    | some _ => none
  | .disconnect =>
    s.socket.map fun k => { s with socket := some { k with out := { k.out with isOpen := false } } }
  | .woken =>
    match s.socket, s.waiter with
    | some ⟨out, peLines, .provisioning sent⟩, some (some r) =>
      some { s with socket := some (Socket.wake s ⟨out, peLines, .provisioning sent⟩ r) }
    | _, _ => none
  | .response ok =>
    match s.socket with
    | some ⟨out, peLines, .fetching⟩ =>
      let k : Socket := ⟨out, peLines, .reading newReader⟩
      some { s with socket := some (if ok then k else k.afterStream s) }
    | _ => none
  | .chunk bytes =>
    match s.socket with
    | some ⟨out, peLines, .reading reader⟩ =>
      let (lines, reader) := readChunk reader bytes
      let k := Socket.process ⟨out, peLines, .reading reader⟩ lines
      some { s with socket := some (if reader.2 then k.afterStream s else k) }
    | _ => none
  | .ended =>
    match s.socket with
    | some ⟨out, peLines, .fetching⟩ =>
      some { s with socket := some (Socket.afterStream s ⟨out, peLines, .fetching⟩) }
    | some ⟨out, peLines, .reading reader⟩ =>
      some { s with socket := some (Socket.afterStream s ⟨out, peLines, .reading reader⟩) }
    | _ => none
  | .status consoleOutput =>
    match s.socket with
    | some ⟨out, peLines, .status⟩ =>
      let k : Socket := ⟨out, peLines, .output⟩
      match consoleOutput with
      | none => some { s with socket := some (k.finish s) }
      | some raw =>
        some { s with socket := some (if raw = "" then k else (k.process (linesOf raw)).finish s) }
    | _ => none
  | .output text =>
    match s.socket with
    | some ⟨out, peLines, .output⟩ =>
      let k : Socket := ⟨out, peLines, .output⟩
      some { s with socket := some ((k.process (linesOf (text.getD ""))).finish s) }
    | _ => none

def run : State → List Event → Option State
  | s, [] => some s
  | s, e :: es => (step workflow s e).bind fun s => run s es

end

end ComputeContract.Spindle.LogStream
