import Mathlib.Data.Int.Notation
import Mathlib.Data.Nat.Notation
import Mathlib.Data.List.Basic
import Mathlib.Logic.Function.Basic
import ComputeContract.Lib.Along

/-!
# SSH over a socket

The SSH relay. A client opens a socket and says what to connect to; the relay spawns an SSH
process and sends its output in frames, tagged with the stream they belong to, then its exit
code. What the client types comes in calls of their own, that name the session.

The messages of the socket, the connects that complete, the output, the exit and the close come
in any order (`Event`); a handler is cut at its awaits.

* `Sound`: what is said about a state;
* `Inv`: what holds of the states in between;
* `relayed_of_careful`: the runs in which it holds: the socket neither closes nor asks for a
  second connect while one is under way, the output has been read when the exit is seen, and
  nobody else writes to the session.
-/

namespace ComputeContract.Ssh

/-! ## The sessions -/

abbrev Bytes := List UInt8

inductive Stream
  | stdout
  | stderr
  deriving DecidableEq

/-- The first byte of a data frame. -/
def Stream.tag : Stream → UInt8
  | .stdout => 0
  | .stderr => 1

inductive Status
  | unstarted
  | running
  | exited (code : ℤ)
  deriving DecidableEq

/-- A session of the manager and its process. -/
structure Process where
  status : Status
  killed : Bool
  /-- It is among the sessions of the manager. -/
  registered : Bool
  /-- All that it wrote so far. -/
  written : Stream → Bytes
  /-- The chunks that have not been read yet. -/
  queue : Stream → List Bytes
  /-- What came to its stdin, with the actor of the call. -/
  stdin : List (String × Bytes)

def Process.unstarted : Process := ⟨.unstarted, false, false, fun _ => [], fun _ => [], []⟩

def Process.spawned : Process := { Process.unstarted with status := .running, registered := true }

/-- `kill`, of a session that is known: a SIGKILL ends the process with the code 128 + 9. -/
def Process.kill (p : Process) : Process :=
  if p.registered then
    { p with
      killed := true
      status := if p.status = .running then .exited 137 else p.status }
  else p

theorem kill_status {p : Process} (h : p.status = .running → p.registered) :
    p.kill.status ≠ .running := by
  rw [Process.kill]
  split
  · dsimp only
    split
    · decide
    · assumption
  · next hnot => exact fun hrunning => hnot (h hrunning)

theorem kill_queue (p : Process) : p.kill.queue = p.queue := by
  rw [Process.kill]
  split <;> rfl

theorem kill_written (p : Process) : p.kill.written = p.written := by
  rw [Process.kill]
  split <;> rfl

theorem kill_stdin (p : Process) : p.kill.stdin = p.stdin := by
  rw [Process.kill]
  split <;> rfl

inductive WriteError
  | sessionNotFound
  | sessionClosed
  deriving DecidableEq

/-- `writeStdin`: the stdin of a process that has ended takes nothing. -/
def Process.write (actor : String) (data : Bytes) (p : Process) : Except WriteError Process :=
  if !p.registered then .error .sessionNotFound
  else if p.killed then .error .sessionClosed
  else if p.status = .running then .ok { p with stdin := p.stdin ++ [(actor, data)] }
  else .error .sessionClosed

/-- Only a process that runs takes what is written. -/
theorem write_ok {actor : String} {data : Bytes} {p p' : Process}
    (h : p.write actor data = .ok p') :
    p.status = .running ∧ p' = { p with stdin := p.stdin ++ [(actor, data)] } := by
  rw [Process.write] at h
  split at h
  · cases h
  · split at h
    · cases h
    · split at h
      · next hrunning => exact ⟨hrunning, (Except.ok.inj h).symm⟩
      · cases h

/-! ## The socket -/

inductive ReadyState
  | connecting
  | open
  | closing
  | closed
  deriving DecidableEq

inductive Frame
  | ready (message : String)
  | connected (sessionId : ℕ)
  | error (message : String)
  | exit (code : ℤ)
  | binary (data : Bytes)
  | close (code : ℕ) (reason : String)
  deriving DecidableEq

structure State where
  ready : ReadyState
  /-- The connects that have not completed. -/
  pending : ℕ
  session : Option ℕ
  /-- The session whose output is sent. -/
  streaming : Option ℕ
  /-- The readers have been cancelled. -/
  cancelled : Bool
  sent : List Frame
  /-- How many processes were started; the sessions are numbered as they come. -/
  started : ℕ
  process : ℕ → Process

variable {actor : String} {s : State}

def State.start : State := ⟨.connecting, 0, none, none, false, [], 0, fun _ => .unstarted⟩

/-- `sendJson`. -/
def send (frame : Frame) (s : State) : State :=
  if s.ready = .open then { s with sent := s.sent ++ [frame] } else s

def sendFrame (stream : Stream) (data : Bytes) (s : State) : State :=
  if data = [] then s else send (.binary (stream.tag :: data)) s

/-- `socket.close`. -/
def close (code : ℕ) (reason : String) (s : State) : State :=
  if s.ready = .open then
    { s with ready := .closing, sent := s.sent ++ [.close code reason] }
  else s

def onProcess (id : ℕ) (f : Process → Process) (s : State) : State :=
  { s with process := Function.update s.process id (f (s.process id)) }

theorem onProcess_ready (id : ℕ) (f : Process → Process) (s : State) :
    (onProcess id f s).ready = s.ready := rfl

theorem onProcess_self (id : ℕ) (f : Process → Process) (s : State) :
    (onProcess id f s).process id = f (s.process id) := Function.update_self ..

theorem onProcess_of_ne {id id' : ℕ} (h : id' ≠ id) (f : Process → Process) (s : State) :
    (onProcess id f s).process id' = s.process id' := Function.update_of_ne h ..

/-- The readers drop what they have not read. -/
def cancelReaders (s : State) : State :=
  match s.streaming with
  | none => s
  | some id => onProcess id (fun p => { p with queue := fun _ => [] }) { s with cancelled := true }

theorem cancelReaders_of_none (h : s.streaming = none) : cancelReaders s = s := by
  rw [cancelReaders, h]

theorem cancelReaders_of_some {id : ℕ} (h : s.streaming = some id) : cancelReaders s
    = onProcess id (fun p => { p with queue := fun _ => [] }) { s with cancelled := true } := by
  rw [cancelReaders, h]

/-! ## The steps -/

/-- What a message parses to. -/
inductive Data
  | invalid
  | null
  | params (host username : Option String)
  deriving DecidableEq

/-- `!params.host`. -/
def missing (field : Option String) : Bool := field.getD "" == ""

/-- The message makes the relay connect. -/
def Data.connects : Data → Bool
  | .params host username => !missing host && !missing username
  | _ => false

theorem connects_of_not_missing {host username : Option String}
    (h : ¬ (missing host || missing username) = true) :
    (Data.params host username).connects = true := by
  rw [Bool.not_eq_true, Bool.or_eq_false_iff] at h
  rw [Data.connects, h.1, h.2]
  rfl

inductive Event
  | opened
  | message (data : Data)
  | connected
  | connectFailed (err : String)
  | output (id : ℕ) (stream : Stream) (data : Bytes)
  /-- A reader gets the next chunk. -/
  | pump (stream : Stream)
  | exit (id : ℕ) (code : ℤ)
  /-- The relay learns that the process it streams has exited. -/
  | exited
  | closed
  | write (actor : String) (id : ℕ) (data : Bytes)
  /-- A session leaves the manager, a while after its exit. -/
  | forget (id : ℕ)

def onMessage (data : Data) (s : State) : State :=
  if s.session.isSome then s
  else match data with
  | .invalid => close 1002 "invalid connect params"
      (send (.error "invalid JSON — expected SSH connect params") s)
  | .null => s -- reading a field of it throws
  | .params host username =>
    if missing host || missing username then
      close 1002 "missing required fields"
        (send (.error "missing required fields: host, username") s)
    else { s with pending := s.pending + 1 }

/-- `connect`, at its end. -/
def spawn (s : State) : State :=
  { s with
    pending := s.pending - 1
    session := some s.started
    started := s.started + 1
    process := Function.update s.process s.started .spawned }

/-- Only the first session is streamed. -/
def startStreaming (id : ℕ) (s : State) : State :=
  { s with streaming := s.streaming.or (some id) }

theorem startStreaming_send (id : ℕ) (frame : Frame) (s : State) :
    startStreaming id (send frame s) = send frame (startStreaming id s) := by
  have hready : (startStreaming id s).ready = s.ready := rfl
  rw [send, send, hready]
  split <;> rfl

def connected (s : State) : State :=
  startStreaming s.started (send (.connected s.started) (spawn s))

/-- What comes out of a stream whose reader was cancelled is lost. -/
def output (id : ℕ) (stream : Stream) (data : Bytes) (s : State) : State :=
  onProcess id (fun p =>
    { p with
      written := Function.update p.written stream (p.written stream ++ data)
      queue := if s.streaming = some id ∧ s.cancelled then p.queue
        else Function.update p.queue stream (p.queue stream ++ [data]) }) s

def pop (stream : Stream) (rest : List Bytes) (p : Process) : Process :=
  { p with queue := Function.update p.queue stream rest }

theorem flatten_pop {p : Process} {stream : Stream} {chunk : Bytes} {rest : List Bytes}
    (h : p.queue stream = chunk :: rest) (stream' : Stream) : (p.queue stream').flatten
      = (if stream' = stream then chunk else []) ++ ((pop stream rest p).queue stream').flatten := by
  rw [pop]
  dsimp only
  split
  · next heq => rw [heq, Function.update_self, h, List.flatten_cons]
  · next hne => rw [Function.update_of_ne hne, List.nil_append]

/-- One turn of `pumpStream`. -/
def pump (stream : Stream) (s : State) : State :=
  match s.streaming with
  | none => s
  | some id =>
    match (s.process id).queue stream with
    | [] => s
    | chunk :: rest =>
      sendFrame stream chunk (onProcess id (pop stream rest) s)

/-- The end of `startStreaming`. -/
def finish (code : ℤ) (s : State) : State :=
  close 1000 s!"SSH exited with code {code}" (send (.exit code) (cancelReaders s))

def killSession (s : State) : State :=
  match s.session with
  | none => s
  | some id => onProcess id .kill s

theorem killSession_of_none (h : s.session = none) : killSession s = s := by rw [killSession, h]

theorem killSession_of_some {id : ℕ} (h : s.session = some id) :
    killSession s = onProcess id .kill s := by rw [killSession, h]

/-- `onclose`. -/
def onClose (s : State) : State := cancelReaders (killSession { s with ready := .closed })

def step (s : State) : Event → State
  | .opened => if s.ready = .connecting then
      send (.ready "send connect params") { s with ready := .open } else s
  -- A socket that is not open does not hand messages on.
  | .message data => if s.ready = .open then onMessage data s else s
  | .connected => if 0 < s.pending then connected s else s
  | .connectFailed err => if 0 < s.pending then
      close 1011 "SSH connection failed"
        (send (.error s!"SSH connection failed: {err}") { s with pending := s.pending - 1 }) else s
  | .output id stream data => if (s.process id).status = .running then output id stream data s else s
  | .pump stream => pump stream s
  | .exit id code => if (s.process id).status = .running then
      onProcess id (fun p => { p with status := .exited code }) s else s
  | .exited => match s.streaming with
    | none => s
    | some id => match (s.process id).status with
      | .exited code => finish code s
      | _ => s
  | .closed => if s.ready = .closed then s else onClose s
  | .write actor id data => match (s.process id).write actor data with
    | .ok p => onProcess id (fun _ => p) s
    | .error _ => s
  | .forget id => match (s.process id).status with
    | .exited _ => onProcess id (fun p => { p with registered := false }) s
    | _ => s

/-! ## What is said about it -/

/-- The bytes of a stream in a frame. -/
def payloadOf (stream : Stream) : Frame → Bytes
  | .binary (tag :: data) => if tag = stream.tag then data else []
  | _ => []

/-- The bytes of a stream in the frames, in their order. -/
def payload (stream : Stream) (frames : List Frame) : Bytes := frames.flatMap (payloadOf stream)

/-- What is said about a state of a socket that the actor opened. -/
structure Sound (actor : String) (s : State) : Prop where
  one : s.started ≤ 1
  dead : s.ready = .closed → s.pending = 0 → ∀ id, (s.process id).status ≠ .running
  complete : ∀ id, s.streaming = some id → ∀ before code rest,
    s.sent = before ++ .exit code :: rest →
      ∀ stream, payload stream before = (s.process id).written stream
  owner : ∀ id, ∀ w ∈ (s.process id).stdin, w.1 = actor

/-- No connect message and no close while a connect is under way; the exit is seen after the
    output has been read; a write that reaches a process is of the actor that opened the
    socket. -/
def Careful (actor : String) (s : State) : Event → Prop
  | .message data => data.connects → s.pending = 0
  | .closed => s.pending = 0
  | .exited => s.ready = .open → ∀ id ∈ s.streaming, ∀ stream,
      ((s.process id).queue stream).flatten = []
  | .write caller id data => ((s.process id).write caller data).toBool → caller = actor
  | _ => True

/-! ## What holds in between -/

theorem payload_append (stream : Stream) (frames frames' : List Frame) :
    payload stream (frames ++ frames') = payload stream frames ++ payload stream frames' :=
  List.flatMap_append

theorem payload_concat (stream : Stream) (frames : List Frame) (frame : Frame) :
    payload stream (frames ++ [frame]) = payload stream frames ++ payloadOf stream frame :=
  (payload_append ..).trans (congrArg _ (List.flatMap_singleton ..))

/-- A frame is of one stream. -/
theorem tag_injective {stream stream' : Stream} (h : stream.tag = stream'.tag) :
    stream = stream' := by
  cases stream <;> cases stream' <;> first | rfl | exact absurd h (by decide)

theorem payloadOf_data (stream stream' : Stream) (data : Bytes) :
    payloadOf stream' (.binary (stream.tag :: data)) = if stream' = stream then data else [] := by
  rw [payloadOf]
  split
  · next htag => rw [if_pos (tag_injective htag.symm)]
  · next htag => rw [if_neg (fun heq => htag (congrArg Stream.tag heq.symm))]

/-- What holds of the states of a careful run: there is one session at most, and while the
    socket is open, what was sent and what has not been read is what its process wrote. -/
structure Inv (actor : String) (s : State) : Prop where
  one : s.pending + s.started ≤ 1
  session : s.session = if s.started = 0 then none else some 0
  streaming : s.streaming = if s.started = 0 then none else some 0
  fresh : s.ready = .connecting → s.started = 0 ∧ s.sent = [] ∧ s.cancelled = false ∧ s.pending = 0
  unstarted : ∀ id, s.started ≤ id → s.process id = .unstarted
  registered : (s.process 0).status = .running → (s.process 0).registered
  dead : s.ready = .closed → s.pending = 0 ∧ (s.process 0).status ≠ .running
  reading : s.ready = .open → s.cancelled = false ∧ (∀ code, Frame.exit code ∉ s.sent) ∧
    ∀ stream, payload stream s.sent ++ ((s.process 0).queue stream).flatten
      = (s.process 0).written stream
  complete : ∀ before code rest, s.sent = before ++ .exit code :: rest →
    s.started = 1 ∧ (s.process 0).status ≠ .running ∧
      ∀ stream, payload stream before = (s.process 0).written stream
  owner : ∀ w ∈ (s.process 0).stdin, w.1 = actor

theorem inv_start (actor : String) : Inv actor .start where
  one := Nat.zero_le 1
  session := rfl
  streaming := rfl
  fresh _ := ⟨rfl, rfl, rfl, rfl⟩
  unstarted _ _ := rfl
  registered h := by cases h
  dead h := by cases h
  reading h := by cases h
  complete before code rest h := by
    have hmem : Frame.exit code ∈ State.start.sent := h ▸ List.mem_append_right _ List.mem_cons_self
    cases hmem
  owner w hw := by cases hw

/-- Without an exit frame there is nothing to say about what is before it. -/
theorem complete_of_not_mem {frames : List Frame} {P : List Frame → Prop}
    (h : ∀ code, Frame.exit code ∉ frames) (before : List Frame) (code : ℤ) (rest : List Frame)
    (heq : frames = before ++ .exit code :: rest) : P before :=
  absurd (heq ▸ List.mem_append_right _ List.mem_cons_self) (h code)

/-- The frames before the one exit frame. -/
theorem before_exit {frames tail before rest : List Frame} {code code' : ℤ}
    (hframes : ∀ code, Frame.exit code ∉ frames) (htail : ∀ code, Frame.exit code ∉ tail)
    (h : frames ++ .exit code :: tail = before ++ .exit code' :: rest) : before = frames := by
  rcases List.append_eq_append_iff.1 h with ⟨between, hbefore, hbetween⟩ | ⟨between, hframe, hbetween⟩
  · cases between with
    | nil => rw [hbefore, List.append_nil]
    | cons frame between =>
      rw [List.cons_append, List.cons.injEq] at hbetween
      exact absurd (hbetween.2 ▸ List.mem_append_right _ List.mem_cons_self) (htail code')
  · cases between with
    | nil => rw [hframe, List.append_nil]
    | cons frame between =>
      rw [List.cons_append, List.cons.injEq] at hbetween
      rw [hframe, ← hbetween.1] at hframes
      exact absurd (List.mem_append_right _ List.mem_cons_self) (hframes code')

theorem Inv.sound (h : Inv actor s) : Sound actor s where
  one := Nat.le_trans (Nat.le_add_left ..) h.one
  dead hclosed _ id hrunning := by
    by_cases hid : s.started ≤ id
    · rw [h.unstarted id hid] at hrunning
      cases hrunning
    · have hzero : id = 0 := by have := h.one; omega
      exact (h.dead hclosed).2 (hzero ▸ hrunning)
  complete id hid before code rest hsent stream := by
    rw [h.streaming] at hid
    split at hid
    · cases hid
    · cases hid
      exact (h.complete before code rest hsent).2.2 stream
  owner id w hw := by
    by_cases hid : s.started ≤ id
    · rw [h.unstarted id hid] at hw
      cases hw
    · have hzero : id = 0 := by have := h.one; omega
      exact h.owner w (hzero ▸ hw)

/-- A session whose process was started is the first. -/
theorem Inv.first (h : Inv actor s) {id : ℕ} (hid : (s.process id).status ≠ .unstarted) :
    id = 0 ∧ s.started = 1 := by
  have hlt : ¬ s.started ≤ id := fun hle => hid (by rw [h.unstarted id hle]; rfl)
  have hone := h.one
  omega

/-- A change of the process of the session. -/
theorem Inv.onProcess (h : Inv actor s) (hstarted : s.started = 1) {f : Process → Process}
    {p : Process} (hp : f (s.process 0) = p)
    (hrunning : p.status = .running → (s.process 0).status = .running ∧ p.registered)
    (hreading : s.ready = .open → ∀ stream,
      payload stream s.sent ++ (p.queue stream).flatten = p.written stream)
    (hwritten : (s.process 0).status ≠ .running → p.written = (s.process 0).written)
    (howner : ∀ w ∈ p.stdin, w.1 = actor) : Inv actor (onProcess 0 f s) := by
  have hprocess : (Ssh.onProcess 0 f s).process 0 = p := by
    rw [onProcess_self, hp]
  exact {
    one := h.one
    session := h.session
    streaming := h.streaming
    fresh := h.fresh
    unstarted := fun id hid => by
      have hne : id ≠ 0 := by rintro rfl; exact absurd (hstarted ▸ hid) (by decide)
      rw [onProcess_of_ne hne, h.unstarted id hid]
    registered := fun hp => by
      rw [hprocess] at hp ⊢
      exact (hrunning hp).2
    dead := fun hclosed => by
      rw [hprocess]
      exact ⟨(h.dead hclosed).1, fun hp => (h.dead hclosed).2 (hrunning hp).1⟩
    reading := fun hopen => by
      rw [hprocess]
      exact ⟨(h.reading hopen).1, (h.reading hopen).2.1, hreading hopen⟩
    complete := fun before code rest hsent => by
      obtain ⟨-, hexit, hbefore⟩ := h.complete before code rest hsent
      rw [hprocess, hwritten hexit]
      exact ⟨hstarted, fun hp => hexit (hrunning hp).1, hbefore⟩
    owner := by
      rw [hprocess]
      exact howner }

/-- A control frame. -/
theorem Inv.send (h : Inv actor s) {frame : Frame} (hpayload : ∀ stream, payloadOf stream frame = [])
    (hexit : ∀ code, .exit code ≠ frame) : Inv actor (send frame s) := by
  rw [Ssh.send]
  split
  · next hopen =>
    obtain ⟨hcancelled, hnone, hflow⟩ := h.reading hopen
    have hnone' : ∀ code, Frame.exit code ∉ s.sent ++ [frame] := fun code hmem => by
      rcases List.mem_append.1 hmem with hmem | hmem
      · exact hnone code hmem
      · exact hexit code (List.mem_singleton.1 hmem)
    exact {
      h with
      fresh := fun hready => by rw [hopen] at hready; cases hready
      reading := fun _ => ⟨hcancelled, hnone', fun stream => by
        rw [payload_concat, hpayload, List.append_nil, hflow]⟩
      complete := complete_of_not_mem hnone' }
  · exact h

theorem Inv.close (h : Inv actor s) (code : ℕ) (reason : String) :
    Inv actor (close code reason s) := by
  have hsent : Inv actor (Ssh.send (Frame.close code reason) s) :=
    h.send (fun _ => rfl) (fun _ heq => by cases heq)
  rw [Ssh.close]
  split
  · next hopen =>
    rw [Ssh.send, if_pos hopen] at hsent
    exact {
      hsent with
      fresh := fun hready => by cases hready
      dead := fun hready => by cases hready
      reading := fun hready => by cases hready }
  · exact h

/-! ## The steps keep it -/

theorem Inv.cancelReaders (h : Inv actor s) (hready : s.ready ≠ .open) :
    Inv actor (cancelReaders s) := by
  by_cases hzero : s.started = 0
  · rw [cancelReaders_of_none (by rw [h.streaming, if_pos hzero])]
    exact h
  · have hstarted : s.started = 1 := by have := h.one; omega
    have hcancelled : Inv actor { s with cancelled := true } := {
      h with
      fresh := fun hfresh => absurd (h.fresh hfresh).1 hzero
      reading := fun hopen => absurd hopen hready }
    rw [cancelReaders_of_some (by rw [h.streaming, if_neg hzero])]
    exact hcancelled.onProcess (f := fun p => { p with queue := fun _ => [] }) hstarted rfl
      (fun hrunning => ⟨hrunning, h.registered hrunning⟩) (fun hopen => absurd hopen hready)
      (fun _ => rfl) h.owner

/-- The exit frame comes when all the output has been sent. -/
theorem Inv.finish (h : Inv actor s) (hstarted : s.started = 1) {code : ℤ}
    (hexited : (s.process 0).status = .exited code)
    (hread : s.ready = .open → ∀ stream, ((s.process 0).queue stream).flatten = []) :
    Inv actor (finish code s) := by
  have hstreaming : s.streaming = some 0 := by rw [h.streaming, hstarted]; rfl
  have hnot : (s.process 0).status ≠ .running := by rw [hexited]; exact fun heq => by cases heq
  have hcancel : (Ssh.cancelReaders s).ready = s.ready := by
    rw [cancelReaders_of_some hstreaming]; rfl
  by_cases hopen : s.ready = .open
  · obtain ⟨-, hnone, hflow⟩ := h.reading hopen
    have hstate : Ssh.finish code s = Ssh.onProcess 0 (fun p => { p with queue := fun _ => [] })
        { s with
          cancelled := true
          ready := .closing
          sent := s.sent ++ [.exit code] ++ [.close 1000 s!"SSH exited with code {code}"] } := by
      rw [Ssh.finish, Ssh.send, if_pos (hcancel.trans hopen), Ssh.close, if_pos (hcancel.trans hopen),
        cancelReaders_of_some hstreaming]
      rfl
    rw [hstate]
    have hclosing : Inv actor { s with
        cancelled := true
        ready := .closing
        sent := s.sent ++ [.exit code] ++ [.close 1000 s!"SSH exited with code {code}"] } := {
      h with
      fresh := fun hready => by cases hready
      dead := fun hready => by cases hready
      reading := fun hready => by cases hready
      complete := fun before code' rest heq => by
        rw [List.append_assoc, List.singleton_append] at heq
        rw [before_exit hnone (fun _ hmem => by cases List.mem_singleton.1 hmem) heq]
        refine ⟨hstarted, hnot, fun stream => ?_⟩
        rw [← hflow stream, hread hopen stream, List.append_nil] }
    exact hclosing.onProcess (f := fun p => { p with queue := fun _ => [] }) hstarted rfl
      (fun hrunning => absurd hrunning hnot) (fun hready => by cases hready) (fun _ => rfl) h.owner
  · rw [Ssh.finish, Ssh.send, if_neg (fun heq => hopen (hcancel.symm.trans heq)), Ssh.close,
      if_neg (fun heq => hopen (hcancel.symm.trans heq))]
    exact h.cancelReaders hopen

theorem Inv.closed (h : Inv actor s) (hpending : s.pending = 0)
    (hnot : (s.process 0).status ≠ .running) : Inv actor { s with ready := .closed } := {
  h with
  fresh := fun heq => by cases heq
  dead := fun _ => ⟨hpending, hnot⟩
  reading := fun heq => by cases heq }

/-- The close kills the process of the session. -/
theorem Inv.onClose (h : Inv actor s) (hpending : s.pending = 0) : Inv actor (onClose s) := by
  by_cases hzero : s.started = 0
  · have hsession : s.session = none := by rw [h.session, if_pos hzero]
    have hstate : Ssh.onClose s = Ssh.cancelReaders { s with ready := .closed } :=
      congrArg _ (killSession_of_none (s := { s with ready := .closed }) hsession)
    have hclosed := h.closed hpending (by rw [h.unstarted 0 (hzero ▸ Nat.le_refl 0)]; decide)
    rw [hstate]
    exact hclosed.cancelReaders (fun heq => by cases heq)
  · have hstarted : s.started = 1 := by have := h.one; omega
    have hsession : s.session = some 0 := by rw [h.session, if_neg hzero]
    have hstate : Ssh.onClose s
        = Ssh.cancelReaders { Ssh.onProcess 0 .kill s with ready := .closed } :=
      congrArg _ (killSession_of_some (s := { s with ready := .closed }) hsession)
    have hkilled : (s.process 0).kill.status ≠ .running := kill_status h.registered
    have hkill : Inv actor (Ssh.onProcess 0 .kill s) :=
      h.onProcess hstarted rfl (fun hrunning => absurd hrunning hkilled)
        (fun hopen stream => by rw [kill_queue, kill_written, (h.reading hopen).2.2])
        (fun _ => kill_written _) (by rw [kill_stdin]; exact h.owner)
    have hclosed := hkill.closed hpending (by rw [onProcess_self]; exact hkilled)
    rw [hstate]
    exact hclosed.cancelReaders (fun heq => by cases heq)

/-- Without a session the connect spawns the first. -/
theorem Inv.connected (h : Inv actor s) (hpending : 0 < s.pending) : Inv actor (connected s) := by
  have hone := h.one
  have hzero : s.started = 0 := by omega
  have hstreaming : s.streaming = none := by rw [h.streaming, if_pos hzero]
  have hunstarted : s.process 0 = .unstarted := h.unstarted 0 (hzero ▸ Nat.le_refl 0)
  have hprocess : (spawn s).process 0 = .spawned := by
    rw [spawn, hzero]
    exact Function.update_self 0 Process.spawned s.process
  have hspawned : Inv actor (startStreaming s.started (spawn s)) := {
    one := by
      have : s.pending - 1 + (s.started + 1) ≤ 1 := by omega
      exact this
    session := by rw [startStreaming, spawn, hzero]; rfl
    streaming := by rw [startStreaming, spawn, hstreaming, hzero]; rfl
    fresh := fun hready => by have := (h.fresh hready).2.2.2; omega
    unstarted := fun id hid => by
      have hid : s.started < id := hid
      exact (Function.update_of_ne (Nat.ne_of_gt hid) Process.spawned s.process).trans
        (h.unstarted id (Nat.le_of_lt hid))
    registered := fun _ => congrArg Process.registered hprocess
    dead := fun hready => by have := (h.dead hready).1; omega
    reading := fun hopen => by
      obtain ⟨hcancelled, hnone, hflow⟩ := h.reading hopen
      refine ⟨hcancelled, hnone, fun stream => ?_⟩
      have hempty := hflow stream
      rw [hunstarted] at hempty
      rw [startStreaming]
      dsimp only
      rw [hprocess]
      exact hempty
    complete := fun before code rest hsent => by
      have := (h.complete before code rest hsent).1
      omega
    owner := fun w hw => by
      rw [startStreaming] at hw
      dsimp only at hw
      rw [hprocess] at hw
      cases hw }
  rw [Ssh.connected, startStreaming_send]
  exact hspawned.send (fun _ => rfl) (fun _ heq => by cases heq)

theorem Inv.onMessage (h : Inv actor s) (hopen : s.ready = .open) {data : Data}
    (hcareful : data.connects → s.pending = 0) : Inv actor (onMessage data s) := by
  have hrefuse (message : String) (reason : String) :
      Inv actor (Ssh.close 1002 reason (Ssh.send (.error message) s)) :=
    (h.send (fun _ => rfl) (fun _ heq => by cases heq)).close ..
  cases data with
  | invalid =>
    rw [Ssh.onMessage]
    split
    · exact h
    · exact hrefuse _ _
  | null =>
    rw [Ssh.onMessage, ite_self]
    exact h
  | params host username =>
    rw [Ssh.onMessage]
    split
    · exact h
    · next hsession =>
      split
      · exact hrefuse _ _
      · next hnot =>
        have hzero : s.started = 0 := by
          by_contra hne
          exact hsession (by rw [h.session, if_neg hne]; rfl)
        have hpending := hcareful (connects_of_not_missing hnot)
        exact {
          h with
          one := Nat.le_of_eq (by rw [hpending, hzero])
          fresh := fun hready => by rw [hopen] at hready; cases hready
          dead := fun hready => by rw [hopen] at hready; cases hready }

theorem Inv.output (h : Inv actor s) {id : ℕ} (hrunning : (s.process id).status = .running)
    (stream : Stream) (data : Bytes) : Inv actor (output id stream data s) := by
  obtain ⟨rfl, hstarted⟩ := h.first (by rw [hrunning]; decide)
  refine h.onProcess hstarted rfl (fun _ => ⟨hrunning, h.registered hrunning⟩) (fun hopen stream' => ?_)
    (fun hnot => absurd hrunning hnot) h.owner
  obtain ⟨hcancelled, -, hflow⟩ := h.reading hopen
  dsimp only
  rw [if_neg (fun heq => by rw [hcancelled] at heq; cases heq.2)]
  by_cases hstream : stream' = stream
  · subst hstream
    rw [Function.update_self, Function.update_self, List.flatten_append, ← List.append_assoc, hflow,
      List.flatten_singleton]
  · rw [Function.update_of_ne hstream, Function.update_of_ne hstream, hflow]

theorem Inv.pump (h : Inv actor s) (stream : Stream) : Inv actor (pump stream s) := by
  by_cases hzero : s.started = 0
  · rw [Ssh.pump, h.streaming, if_pos hzero]
    exact h
  have hstarted : s.started = 1 := by have := h.one; omega
  rw [Ssh.pump, h.streaming, if_neg hzero]
  dsimp only
  split
  · exact h
  next chunk rest hqueue =>
  by_cases hopen : s.ready = .open
  swap
  · -- What is read after the close is dropped.
    have hdropped : sendFrame stream chunk (Ssh.onProcess 0 (pop stream rest) s)
        = Ssh.onProcess 0 (pop stream rest) s := by
      rw [sendFrame, Ssh.send, onProcess_ready, if_neg hopen, ite_self]
    rw [hdropped]
    exact h.onProcess hstarted rfl (fun hrunning => ⟨hrunning, h.registered hrunning⟩)
      (fun heq => absurd heq hopen) (fun _ => rfl) h.owner
  obtain ⟨hcancelled, hnone, hflow⟩ := h.reading hopen
  by_cases hempty : chunk = []
  · rw [sendFrame, if_pos hempty]
    refine h.onProcess hstarted rfl (fun hrunning => ⟨hrunning, h.registered hrunning⟩)
      (fun _ stream' => ?_) (fun _ => rfl) h.owner
    have hflow' := hflow stream'
    rw [flatten_pop hqueue stream', hempty, ite_self, List.nil_append] at hflow'
    exact hflow'
  · rw [sendFrame, if_neg hempty, Ssh.send, onProcess_ready, if_pos hopen]
    have hnone' : ∀ code, Frame.exit code ∉ s.sent ++ [.binary (stream.tag :: chunk)] :=
      fun code hmem => by
        rcases List.mem_append.1 hmem with hmem | hmem
        · exact hnone code hmem
        · cases List.mem_singleton.1 hmem
    have hpopped : (Ssh.onProcess 0 (pop stream rest) s).process 0 = pop stream rest (s.process 0) :=
      onProcess_self ..
    exact {
      one := h.one
      session := h.session
      streaming := h.streaming
      fresh := fun hready => by cases hopen.symm.trans hready
      unstarted := fun id hid => by
        have hne : id ≠ 0 := by rintro rfl; exact absurd (hstarted ▸ hid) (by decide)
        exact (onProcess_of_ne hne ..).trans (h.unstarted id hid)
      registered := by
        dsimp only
        rw [hpopped]
        exact h.registered
      dead := fun hready => by cases hopen.symm.trans hready
      reading := fun _ => by
        dsimp only
        refine ⟨hcancelled, hnone', fun stream' => ?_⟩
        rw [hpopped, payload_concat, payloadOf_data, List.append_assoc, ← flatten_pop hqueue]
        exact hflow stream'
      complete := complete_of_not_mem hnone'
      owner := by
        dsimp only
        rw [hpopped]
        exact h.owner }

theorem Inv.write (h : Inv actor s) {id : ℕ} {caller : String} {data : Bytes} {p : Process}
    (hwrite : (s.process id).write caller data = .ok p) (hcaller : caller = actor) :
    Inv actor (Ssh.onProcess id (fun _ => p) s) := by
  obtain ⟨hrunning, rfl⟩ := write_ok hwrite
  obtain ⟨rfl, hstarted⟩ := h.first (by rw [hrunning]; decide)
  refine h.onProcess hstarted rfl (fun _ => ⟨hrunning, h.registered hrunning⟩)
    (fun hopen => (h.reading hopen).2.2) (fun _ => rfl) (fun w hw => ?_)
  rcases List.mem_append.1 hw with hw | hw
  · exact h.owner w hw
  · rw [List.mem_singleton.1 hw, hcaller]

theorem inv_step (h : Inv actor s) {e : Event} (hcareful : Careful actor s e) :
    Inv actor (step s e) := by
  cases e with
  | opened =>
    rw [step]
    split
    · next hready =>
      obtain ⟨hstarted, hsent, hcancelled, -⟩ := h.fresh hready
      have hopened : Inv actor { s with ready := .open } := {
        h with
        fresh := fun heq => by cases heq
        dead := fun heq => by cases heq
        reading := fun _ => by
          dsimp only
          refine ⟨hcancelled, fun code hmem => ?_, fun stream => ?_⟩
          · rw [hsent] at hmem
            cases hmem
          · rw [hsent, h.unstarted 0 (hstarted ▸ Nat.le_refl 0)]
            rfl }
      exact hopened.send (fun _ => rfl) (fun _ heq => by cases heq)
    · exact h
  | message data =>
    rw [step]
    split
    · next hopen => exact h.onMessage hopen hcareful
    · exact h
  | connected =>
    rw [step]
    split
    · next hpending => exact h.connected hpending
    · exact h
  | connectFailed err =>
    rw [step]
    split
    · next hpending =>
      have hone := h.one
      have hfailed : Inv actor { s with pending := s.pending - 1 } := {
        h with
        one := by dsimp only; omega
        fresh := fun hready => by have := (h.fresh hready).2.2.2; omega
        dead := fun hready => by have := (h.dead hready).1; omega }
      exact (hfailed.send (fun _ => rfl) (fun _ heq => by cases heq)).close ..
    · exact h
  | output id stream data =>
    rw [step]
    split
    · next hrunning => exact h.output hrunning stream data
    · exact h
  | pump stream => exact h.pump stream
  | exit id code =>
    rw [step]
    split
    · next hrunning =>
      obtain ⟨rfl, hstarted⟩ := h.first (by rw [hrunning]; decide)
      exact h.onProcess hstarted rfl (fun heq => by cases heq) (fun hopen => (h.reading hopen).2.2)
        (fun _ => rfl) h.owner
    · exact h
  | exited =>
    rw [step]
    split
    · exact h
    · next id hid =>
      split
      · next code hexited =>
        obtain ⟨rfl, hstarted⟩ := h.first (by rw [hexited]; exact fun heq => by cases heq)
        exact h.finish hstarted hexited (fun hopen => hcareful hopen 0 hid)
      · exact h
  | closed =>
    rw [step]
    split
    · exact h
    · exact h.onClose hcareful
  | write caller id data =>
    rw [step]
    split
    · next p hwrite => exact h.write hwrite (hcareful (by rw [hwrite]; rfl))
    · exact h
  | forget id =>
    rw [step]
    split
    · next code hexited =>
      obtain ⟨rfl, hstarted⟩ := h.first (by rw [hexited]; exact fun heq => by cases heq)
      exact h.onProcess hstarted rfl (fun heq => by rw [hexited] at heq; cases heq)
        (fun hopen => (h.reading hopen).2.2) (fun _ => rfl) h.owner
    · exact h

theorem relayed_of_careful (actor : String) (es : List Event)
    (hcareful : Along step (Careful actor) .start es) :
    Along step (fun s e => Sound actor (step s e)) .start es :=
  along_of_inv (fun s _ (h : Inv actor s) he => ⟨(inv_step h he).sound, inv_step h he⟩)
    (inv_start actor) hcareful

/-- A session that prints, is written to and exits. -/
theorem relayed_of_careful_session : Along step (fun s e => Sound "did:plc:a" (step s e)) .start
    [.opened, .message (.params (some "vm") (some "root")), .connected, .output 0 .stdout [36],
      .pump .stdout, .write "did:plc:a" 0 [10], .exit 0 0, .exited, .closed] := by
  refine relayed_of_careful "did:plc:a" _ ⟨trivial, fun _ => rfl, trivial, trivial, trivial,
    fun _ => rfl, trivial, fun _ => ?_, rfl, trivial⟩
  rintro _ ⟨⟩ stream
  cases stream <;> rfl

/-- The client sends its message twice; it leaves before the connect completes; the process exits
    before its output is read; somebody else writes. -/
theorem not_relayed :
    (¬ Along step (fun s e => Sound "did:plc:a" (step s e)) .start
      [.opened, .message (.params (some "vm") (some "root")),
        .message (.params (some "vm") (some "root")), .connected, .connected]) ∧
    (¬ Along step (fun s e => Sound "did:plc:a" (step s e)) .start
      [.opened, .message (.params (some "vm") (some "root")), .closed, .connected]) ∧
    (¬ Along step (fun s e => Sound "did:plc:a" (step s e)) .start
      [.opened, .message (.params (some "vm") (some "root")), .connected, .output 0 .stdout [36],
        .exit 0 0, .exited]) ∧
    ¬ Along step (fun s e => Sound "did:plc:a" (step s e)) .start
      [.opened, .message (.params (some "vm") (some "root")), .connected,
        .write "did:plc:b" 0 [10]] := by
  refine ⟨fun h => ?_, fun h => ?_, fun h => ?_, fun h => ?_⟩
  · exact absurd h.2.2.2.2.1.one (by decide)
  · exact h.2.2.2.1.dead rfl rfl 0 rfl
  · have hcomplete := h.2.2.2.2.2.1.complete 0 rfl
      [.ready "send connect params", .connected 0] 0 [.close 1000 "SSH exited with code 0"] rfl .stdout
    cases hcomplete
  · have howner := h.2.2.2.1.owner 0 ("did:plc:b", [10]) List.mem_cons_self
    exact absurd howner (by decide)

end ComputeContract.Ssh
