import ComputeContract.Spindle.LogStream

/-!
# The framing of the log stream

What a socket sends does not depend on when lines are appended, when the socket is woken, or
where the bytes of the console are cut: it is a `transcript` of what happened, the lines that were
appended until the socket went on, the lines of the console, and those that were stored. Its
frames are well bracketed.

* `Story`: what happened to a socket;
* `transcript`: what a socket sends, one thing after the other;
* `Bracketed`: steps are ended before the next one starts, and data is in the step that is open;
* `stream_framed`: what a socket has sent, in every run.
-/

namespace ComputeContract.Spindle.LogStream

open Chunks

/-! ## What happened -/

/-- What happened to a socket since it was opened. -/
structure Story where
  /-- The submission had not ended when the socket was opened. -/
  live : Bool
  /-- The array of the run. -/
  job : Option ℕ
  waiter : Option (Option RunReady)
  logs : Option String
  /-- The lines that were there, and those that were appended until the socket went on. -/
  lines : List String
  /-- The socket has gone on, and how the submission had ended. -/
  woken : Option RunReady
  /-- The bytes of the console stream. -/
  bytes : Bytes
  /-- The lines that were stored, when the stream had none. -/
  stored : List String

namespace Story

def start (s : State) : Story where
  live := s.taskId = "" ∧ s.waiter = some none
  job := s.preRunLogs
  waiter := s.waiter
  logs := s.logs
  lines := s.lines
  woken := none
  bytes := []
  stored := []

variable (st : Story)

/-- The socket still waits. -/
def waits : Bool := st.live && st.woken.isNone

def settle (r : RunReady) : Story :=
  match st.waiter with
  | some none => { st with waiter := some (some r) }
  | _ => st

/-- The lines of a text, or else those of the output that was kept. -/
def orSaved (lines : List String) : List String :=
  if lines = [] then linesOf (st.logs.getD "") else lines

def note : Event → Story
  | .line job text =>
    if st.waits ∧ st.job = some job then { st with lines := st.lines ++ [text] } else st
  | .installed _ => st.settle .ready
  | .failed => st.settle .failed
  | .persist output => { st with logs := some output }
  | .woken => { st with woken := st.waiter.join }
  | .chunk bytes => { st with bytes := st.bytes ++ bytes }
  | .status none => { st with stored := st.orSaved [] }
  | .status (some raw) => if raw = "" then st else { st with stored := st.orSaved (linesOf raw) }
  | .output text => { st with stored := st.orSaved (linesOf (text.getD "")) }
  | _ => st

/-- The lines of the console. -/
def console : List String := streamLines st.bytes ++ st.stored

/-- The notice that the submission failed. -/
def notice : List String :=
  if st.live ∧ st.woken = some .failed then
    ["##[error] workflow submission failed; no compute was provisioned"]
  else []

/-- What is sent before the console. -/
def provisioned (workflow : String) : Out :=
  let out := Out.hello workflow
  if st.live then
    match st.woken with
    | none => out.provision st.lines
    | some .ready => (out.provision st.lines).closeStep
    | some .failed => (out.provision st.lines).closeStep.fail
  else if st.lines = [] then out
  else (out.provision st.lines).closeStep

/-- What a socket sends, one thing after the other. -/
def transcript (workflow : String) (closed : Bool) : Out :=
  let out := st.console.foldl Out.processLine (st.provisioned workflow)
  if closed then out.ending else out

end Story

/-! ## Frames in order -/

def Frame.contents : Frame → List String
  | .data _ content => [content]
  | _ => []

/-- The contents of the data frames. -/
def dataOf (frames : List Frame) : List String := frames.flatMap Frame.contents

/-- The step that is open and the last one that was started, after a frame of a step; none if the
    frame is out of place. -/
def place : Option ℕ × ℕ → Frame → Option (Option ℕ × ℕ)
  | (none, last), .start id _ _ => if last < id then some (some id, id) else none
  | (some step, last), .done id => if id = step then some (none, last) else none
  | (step, last), .data id _ => if id = step.getD 0 then some (step, last) else none
  | _, _ => none

/-- Within the step of the workflow, `0`: a step ends before the next one starts, the ids grow,
    and data is in the step that is open. The step of the workflow ends last, when the stream is
    over. -/
def Bracketed (closed : Bool) (frames : List Frame) : Prop :=
  ∃ workflow body step last, (body.foldlM place (none, 0) = some (step, last)) ∧
    if closed then step = none ∧ frames = .start 0 workflow StepKindSystem :: body ++ [.done 0]
    else frames = .start 0 workflow StepKindSystem :: body

/-- A line of the console that starts or ends a step. -/
def isMarker (raw : String) : Bool :=
  startsWith "##[group]".toList raw.toList || startsWith "##[endgroup]".toList raw.toList

/-- What a socket has sent: the transcript of its story, with every line once and in order, well
    bracketed. -/
structure Framed (workflow : String) (st : Story) (k : Socket) : Prop where
  frames : k.out.frames = (st.transcript workflow k.phase.isClosed).frames
  data : dataOf k.out.frames =
    st.lines ++ st.notice ++ st.console.filter fun raw => !isMarker raw
  bracketed : Bracketed k.phase.isClosed k.out.frames

/-! ## What is sent -/

/-- An open socket has sent the data `sent`, and its frames are in place. -/
structure Placed (o : Out) (sent : List String) : Prop where
  isOpen : o.isOpen = true
  data : dataOf o.frames = sent
  body : ∃ workflow body, o.frames = .start 0 workflow StepKindSystem :: body ∧
    body.foldlM place (none, 0) =
      some (if o.currentStepId = 0 then none else some o.currentStepId, o.nextStepId)

namespace Placed

variable {o : Out} {sent : List String}

theorem send (h : Placed o sent) {frame : Frame} {next current : ℕ}
    (hplace : place (if o.currentStepId = 0 then none else some o.currentStepId, o.nextStepId)
      frame = some (if current = 0 then none else some current, next)) :
    Placed ⟨o.isOpen, next, current, o.frames ++ [frame]⟩ (sent ++ frame.contents) := by
  obtain ⟨workflow, body, hframes, hbody⟩ := h.body
  have hone : ∀ step, [frame].foldlM place step = place step frame := fun step => by
    simp only [List.foldlM_cons, List.foldlM_nil, bind_pure]
  refine ⟨h.isOpen, ?_, workflow, body ++ [frame], ?_, ?_⟩
  · rw [dataOf, List.flatMap_append, ← dataOf, h.data, List.flatMap_singleton]
  · rw [hframes, List.cons_append]
  · rw [List.foldlM_append, hbody]
    exact (hone _).trans hplace

theorem hello (workflow : String) : Placed (Out.hello workflow) [] :=
  ⟨rfl, rfl, workflow, [], rfl, rfl⟩

theorem openStep (h : Placed o sent) (hcurrent : o.currentStepId = 0) (name : String) (kind : ℕ) :
    Placed (o.openStep name kind) sent := by
  rw [Out.openStep, Out.send, if_pos h.isOpen, ← List.append_nil sent]
  refine @Placed.send _ _ h (.start _ name kind) _ _ ?_
  rw [if_pos hcurrent, place, if_pos (Nat.lt_succ_self _), if_neg (Nat.succ_ne_zero _)]

theorem closeStep (h : Placed o sent) (hcurrent : o.currentStepId ≠ 0) :
    Placed o.closeStep sent := by
  rw [Out.closeStep, Out.send, if_pos h.isOpen, ← List.append_nil sent]
  refine @Placed.send _ _ h (.done _) _ _ ?_
  rw [if_neg hcurrent, place, if_pos rfl, if_pos rfl]

theorem sendData (h : Placed o sent) (content : String) :
    Placed (o.sendData content) (sent ++ [content]) := by
  rw [Out.sendData, Out.send, if_pos h.isOpen]
  refine @Placed.send _ _ h (.data _ content) _ _ ?_
  by_cases hcurrent : o.currentStepId = 0
  · rw [if_pos hcurrent, place, hcurrent]
    rfl
  · rw [if_neg hcurrent, place]
    exact if_pos rfl

theorem current_openStep (h : Placed o sent) (name : String) (kind : ℕ) :
    (o.openStep name kind).currentStepId ≠ 0 := by
  rw [Out.openStep, Out.send, if_pos h.isOpen]
  exact Nat.succ_ne_zero _

theorem current_sendData (o : Out) (content : String) :
    (o.sendData content).currentStepId = o.currentStepId := by
  rw [Out.sendData, Out.send]
  split_ifs <;> rfl

/-- The step that is open is closed, if there is one. -/
theorem close (h : Placed o sent) :
    Placed (if o.currentStepId ≠ 0 then o.closeStep else o) sent ∧
      (if o.currentStepId ≠ 0 then o.closeStep else o).currentStepId = 0 := by
  split_ifs with hcurrent
  · exact ⟨h.closeStep hcurrent, rfl⟩
  · exact ⟨h, not_not.1 hcurrent⟩

theorem sendAll (h : Placed o sent) (lines : List String) :
    Placed (lines.foldl Out.sendData o) (sent ++ lines) ∧
      (lines.foldl Out.sendData o).currentStepId = o.currentStepId := by
  induction lines generalizing o sent with
  | nil => exact ⟨by rwa [List.append_nil], rfl⟩
  | cons line lines ih =>
    obtain ⟨hplaced, hcurrent⟩ := ih (h.sendData line)
    rw [List.append_assoc, List.singleton_append] at hplaced
    exact ⟨hplaced, hcurrent.trans (current_sendData o line)⟩

theorem provision (h : Placed o sent) (hcurrent : o.currentStepId = 0) (lines : List String) :
    Placed (o.provision lines) (sent ++ lines) ∧ (o.provision lines).currentStepId ≠ 0 := by
  obtain ⟨hplaced, hsame⟩ := (h.openStep hcurrent "Provisioning" StepKindUser).sendAll lines
  refine ⟨hplaced, ?_⟩
  rw [Out.provision, hsame]
  exact h.current_openStep _ _

/-- A line in a step of its own. -/
theorem ownStep (h : Placed o sent) (hcurrent : o.currentStepId = 0) (name content : String) :
    Placed ((o.openStep name StepKindUser).sendData content).closeStep (sent ++ [content]) := by
  refine ((h.openStep hcurrent name StepKindUser).sendData content).closeStep ?_
  rw [current_sendData]
  exact h.current_openStep _ _

/-- A line of the console is sent, unless it starts or ends a step. -/
theorem processLine (h : Placed o sent) (raw : String) :
    Placed (o.processLine raw) (sent ++ if isMarker raw then [] else [raw]) := by
  obtain ⟨hclosed, hcurrent⟩ := h.close
  rw [Out.processLine, isMarker]
  by_cases hgroup : startsWith "##[group]".toList raw.toList
  · rw [if_pos hgroup, hgroup, Bool.true_or, if_pos rfl, List.append_nil]
    exact hclosed.openStep hcurrent _ _
  rw [if_neg hgroup]
  by_cases hend : startsWith "##[endgroup]".toList raw.toList
  · rw [if_pos hend, hend, Bool.or_true, if_pos rfl, List.append_nil]
    exact hclosed
  rw [if_neg hend, Bool.eq_false_iff.2 hgroup, Bool.eq_false_iff.2 hend, Bool.or_false,
    if_neg Bool.false_ne_true]
  by_cases herror : startsWith "##[error]".toList raw.toList
  · rw [if_pos herror]
    by_cases hopen : o.currentStepId = 0
    · rw [if_pos hopen]
      exact h.ownStep hopen _ _
    · rw [if_neg hopen]
      exact h.sendData raw
  · rw [if_neg herror]
    exact h.sendData raw

theorem process (h : Placed o sent) (lines : List String) :
    Placed (lines.foldl Out.processLine o) (sent ++ lines.filter fun raw => !isMarker raw) := by
  induction lines generalizing o sent with
  | nil => rwa [List.filter_nil, List.append_nil]
  | cons raw lines ih =>
    have hplaced := ih (h.processLine raw)
    rw [List.filter_cons]
    cases hmarker : isMarker raw with
    | true => simpa [hmarker] using hplaced
    | false => simpa [hmarker] using hplaced

/-- What is sent before the console. -/
theorem provisioned (st : Story) (workflow : String) :
    Placed (st.provisioned workflow) (st.lines ++ st.notice) := by
  obtain ⟨hlines, hopen⟩ := (hello workflow).provision rfl st.lines
  have hclosed := hlines.closeStep hopen
  rw [List.nil_append] at hlines hclosed
  unfold Story.provisioned Story.notice
  cases hlive : st.live with
  | true =>
    cases hwoken : st.woken with
    | none => simpa using hlines
    | some r =>
      cases r with
      | ready => simpa using hclosed
      | failed => simpa [Out.fail] using hclosed.ownStep rfl "Error" _
  | false =>
    by_cases hnil : st.lines = []
    · simpa [hnil] using hello workflow
    · simpa [hnil] using hclosed

theorem transcript (st : Story) (workflow : String) : Placed (st.transcript workflow false)
    (st.lines ++ st.notice ++ st.console.filter fun raw => !isMarker raw) :=
  (provisioned st workflow).process st.console

end Placed

/-- The frames of a socket that is open. -/
theorem bracketed_of_placed {o : Out} {sent : List String} (h : Placed o sent) :
    Bracketed false o.frames := by
  obtain ⟨workflow, body, hframes, hbody⟩ := h.body
  exact ⟨workflow, body, _, _, hbody, hframes⟩

/-- The frames of a stream that is over. -/
theorem ending_of_placed {o : Out} {sent : List String} (h : Placed o sent) :
    dataOf o.ending.frames = sent ∧ Bracketed true o.ending.frames := by
  obtain ⟨hclosed, hcurrent⟩ := h.close
  obtain ⟨workflow, body, hframes, hbody⟩ := hclosed.body
  rw [Out.ending, Out.send, if_pos hclosed.isOpen]
  dsimp only
  rw [if_pos hcurrent] at hbody
  refine ⟨?_, workflow, body, none, _, hbody, rfl, by rw [hframes]⟩
  rw [dataOf, List.flatMap_append, ← dataOf, hclosed.data]
  exact List.append_nil _

theorem transcript_closed (workflow : String) (st : Story) :
    st.transcript workflow true = (st.transcript workflow false).ending := by
  rw [Story.transcript, if_pos rfl, Story.transcript, if_neg Bool.false_ne_true]

/-- A socket that has sent its transcript is framed. -/
theorem framed_of_frames {workflow : String} {st : Story} {k : Socket}
    (h : k.out.frames = (st.transcript workflow k.phase.isClosed).frames) :
    Framed workflow st k := by
  have hplaced := Placed.transcript st workflow
  refine ⟨h, ?_, ?_⟩ <;> rw [h]
  · cases k.phase.isClosed with
    | true =>
      rw [transcript_closed]
      exact (ending_of_placed hplaced).1
    | false => exact hplaced.data
  · cases k.phase.isClosed with
    | true =>
      rw [transcript_closed]
      exact (ending_of_placed hplaced).2
    | false => exact bracketed_of_placed hplaced

/-! ## What happens -/

/-- What the socket waits for, by what happened to it. -/
inductive At (workflow : String) (st : Story) : Socket → Prop
  | provisioning : st.waits → st.bytes = [] → st.stored = [] →
      At workflow st ⟨st.transcript workflow false, 0, .provisioning st.lines.length⟩
  | fetching : ¬ st.waits → st.bytes = [] → st.stored = [] →
      At workflow st ⟨st.transcript workflow false, 0, .fetching⟩
  | reading {reader : ReaderState} : ¬ st.waits → (readChunk newReader st.bytes).2 = reader →
      reader.2 = false → st.stored = [] →
      At workflow st ⟨st.transcript workflow false, (streamLines st.bytes).length, .reading reader⟩
  | status : ¬ st.waits → streamLines st.bytes = [] → st.stored = [] →
      At workflow st ⟨st.transcript workflow false, 0, .status⟩
  | output : ¬ st.waits → streamLines st.bytes = [] → st.stored = [] →
      At workflow st ⟨st.transcript workflow false, 0, .output⟩
  | closed {n : ℕ} : ¬ st.waits →
      At workflow st ⟨{ st.transcript workflow true with isOpen := false }, n, .closed⟩

/-- The story of the socket is what happened to the run. -/
structure Told (workflow : String) (st : Story) (s : State) : Prop where
  job : st.job = s.preRunLogs
  arrays : s.preRunLogs = none → s.arrays = []
  waiter : st.waiter = s.waiter
  logs : st.logs = s.logs
  lines : st.waits → st.lines = s.lines
  socket : ∃ k, s.socket = some k ∧ At workflow st k

theorem At.framed {workflow : String} {st : Story} {k : Socket} (h : At workflow st k) :
    Framed workflow st k := by
  refine framed_of_frames ?_
  cases h <;> rfl

theorem isOpen_transcript (workflow : String) (st : Story) :
    (st.transcript workflow false).isOpen = true := (Placed.transcript st workflow).isOpen

section
variable {workflow : String} {st : Story} {s : State}

/-- What is stored later is sent after what was sent before. -/
theorem transcript_stored (hstored : st.stored = []) (lines : List String) :
    lines.foldl Out.processLine (st.transcript workflow false) =
      { st with stored := lines }.transcript workflow false := by
  change lines.foldl _ (st.console.foldl _ (st.provisioned workflow)) =
    { st with stored := lines }.console.foldl _ (st.provisioned workflow)
  rw [← List.foldl_append, Story.console, Story.console, hstored, List.append_nil]

/-- A chunk is sent after what was sent before. -/
theorem transcript_chunk (hstored : st.stored = []) (bytes : Bytes) :
    (readChunk (readChunk newReader st.bytes).2 bytes).1.foldl Out.processLine
        (st.transcript workflow false) =
      { st with bytes := st.bytes ++ bytes }.transcript workflow false := by
  change _ = { st with bytes := st.bytes ++ bytes }.console.foldl _ (st.provisioned workflow)
  rw [Story.transcript, if_neg Bool.false_ne_true, ← List.foldl_append, Story.console,
    Story.console, hstored, streamLines, streamLines, chunked_readChunk, List.append_nil,
    List.append_nil]

/-- After the console, with the lines that were stored if it had none. -/
theorem at_finish (hwaits : ¬ st.waits) {n : ℕ} {phase : Phase}
    (hstored : n = 0 → st.stored = []) (hlogs : st.logs = s.logs) :
    At workflow (if n = 0 then { st with stored := linesOf (st.logs.getD "") } else st)
      (Socket.finish s ⟨st.transcript workflow false, n, phase⟩) := by
  rw [Socket.finish]
  split_ifs with hn
  · rw [Socket.process, ← hlogs]
    dsimp only
    rw [transcript_stored (hstored hn), ← transcript_closed]
    exact .closed hwaits
  · dsimp only
    rw [← transcript_closed]
    exact .closed hwaits

/-- The lines that are stored are sent, or else those that were kept. -/
theorem at_stored (hwaits : ¬ st.waits) (hstored : st.stored = []) (hlogs : st.logs = s.logs)
    (lines : List String) {phase : Phase} :
    At workflow { st with stored := st.orSaved lines }
      (Socket.finish s (Socket.process ⟨st.transcript workflow false, 0, phase⟩ lines)) := by
  have hprocess : Socket.process ⟨st.transcript workflow false, 0, phase⟩ lines =
      ⟨{ st with stored := lines }.transcript workflow false, lines.length, phase⟩ := by
    rw [Socket.process, transcript_stored hstored, Nat.zero_add]
  have hfinish := @at_finish workflow { st with stored := lines } s hwaits lines.length phase
    List.eq_nil_of_length_eq_zero hlogs
  rw [hprocess, Story.orSaved]
  simp only [List.length_eq_zero_iff] at hfinish
  split_ifs at hfinish ⊢ with hlines
  · exact hfinish
  · exact hfinish

/-- After the console stream. -/
theorem at_afterStream (hwaits : ¬ st.waits) (hstored : st.stored = []) (hlogs : st.logs = s.logs)
    {phase : Phase} : At workflow st
      (Socket.afterStream s ⟨st.transcript workflow false, (streamLines st.bytes).length, phase⟩) := by
  rw [Socket.afterStream]
  split_ifs with hlength
  · dsimp only at hlength
    rw [hlength]
    exact .status hwaits (List.eq_nil_of_length_eq_zero hlength) hstored
  · have hfinish := @at_finish workflow st s hwaits (streamLines st.bytes).length phase
      (fun _ => hstored) hlogs
    rwa [if_neg hlength] at hfinish

/-- The waiter and the output that is kept do not matter for what was sent. -/
theorem At.set {k : Socket} (h : At workflow st k) (waiter : Option (Option RunReady))
    (logs : Option String) : At workflow { st with waiter, logs } k := by
  cases h with
  | provisioning hwaits hbytes hstored => exact .provisioning hwaits hbytes hstored
  | fetching hwaits hbytes hstored => exact .fetching hwaits hbytes hstored
  | reading hwaits hreader hdone hstored => exact .reading hwaits hreader hdone hstored
  | status hwaits hlines hstored => exact .status hwaits hlines hstored
  | output hwaits hlines hstored => exact .output hwaits hlines hstored
  | closed hwaits => exact .closed hwaits

theorem Told.persist (h : Told workflow st s) (output : String) :
    Told workflow (st.note (.persist output)) { s with logs := some output } := by
  obtain ⟨k, hk, hat⟩ := h.socket
  exact ⟨h.job, h.arrays, h.waiter, rfl, h.lines, k, hk, hat.set _ _⟩

theorem Told.settle (h : Told workflow st s) (r : RunReady) :
    Told workflow (st.settle r) (settle s r) := by
  obtain ⟨k, hk, hat⟩ := h.socket
  have hwaiter := h.waiter
  rw [Story.settle, LogStream.settle]
  rcases hw : s.waiter with - | - | r' <;> rw [hw] at hwaiter <;> simp only [hwaiter]
  · exact h
  · exact ⟨h.job, h.arrays, rfl, h.logs, h.lines, k, hk, hat.set _ _⟩
  · exact h

theorem waits_iff : st.waits ↔ st.live ∧ st.woken = none := by
  rw [Story.waits, Bool.and_eq_true, Option.isNone_iff_eq_none]

/-- While the socket waits, it has sent the lines so far. -/
theorem transcript_of_waits (hwaits : st.waits) (hbytes : st.bytes = []) (hstored : st.stored = []) :
    st.transcript workflow false = (Out.hello workflow).provision st.lines := by
  obtain ⟨hlive, hwoken⟩ := waits_iff.1 hwaits
  rw [Story.transcript, Story.console, hbytes, hstored, Story.provisioned, hlive, hwoken]
  rfl

theorem At.of_waits {k : Socket} (h : At workflow st k) (hwaits : st.waits) :
    st.bytes = [] ∧ st.stored = [] ∧
      k = ⟨(Out.hello workflow).provision st.lines, 0, .provisioning st.lines.length⟩ := by
  cases h with
  | provisioning _ hbytes hstored =>
    exact ⟨hbytes, hstored, by rw [transcript_of_waits hwaits hbytes hstored]⟩
  | _ => contradiction

/-- What changes the socket only, once it does not wait. -/
theorem Told.socketOnly (h : Told workflow st s) {st' : Story} {k : Socket}
    (hnote : st'.job = st.job ∧ st'.waiter = st.waiter ∧ st'.logs = st.logs)
    (hwaits : ¬ st'.waits) (hk : At workflow st' k) :
    Told workflow st' { s with socket := some k } where
  job := hnote.1.trans h.job
  arrays := h.arrays
  waiter := hnote.2.1.trans h.waiter
  logs := hnote.2.2.trans h.logs
  lines hst := absurd hst hwaits
  socket := ⟨k, rfl, hk⟩

theorem At.flush {k : Socket} (h : At workflow st k) (hwaits : ¬ st.waits) (s : State) :
    flush s k = k := by
  cases h <;> first | rfl | contradiction

/-- A line that is appended is sent while the socket waits. -/
theorem Told.line (h : Told workflow st s) {job : ℕ} {text : String} {s' : State}
    (hstep : step workflow s (.line job text) = some s') :
    Told workflow (st.note (.line job text)) s' := by
  rw [step] at hstep
  split_ifs at hstep with hjob
  obtain rfl := Option.some.inj hstep
  obtain ⟨k, hk, hat⟩ := h.socket
  obtain ⟨registered, hregistered⟩ : ∃ j, s.preRunLogs = some j := by
    cases hnone : s.preRunLogs with
    | none =>
      rw [h.arrays hnone] at hjob
      exact absurd hjob (Nat.not_lt_zero _)
    | some j => exact ⟨j, rfl⟩
  have hlines : ∀ arrays preLogs socket, State.lines { s with arrays, preLogs, socket } =
      (arrays[registered]?).getD [] := by
    intro arrays preLogs socket
    rw [State.lines, hregistered]
    rfl
  have hold : s.lines = (s.arrays[registered]?).getD [] := hlines s.arrays s.preLogs s.socket
  have hnone : s.preRunLogs = none → s.arrays.modify job (· ++ [text]) = [] := by
    rw [hregistered]
    exact nofun
  by_cases hwaits : st.waits
  · obtain ⟨hbytes, hstored, rfl⟩ := hat.of_waits hwaits
    have hsent := h.lines hwaits
    by_cases hsame : st.job = some job
    · obtain rfl : registered = job := by
        rw [h.job, hregistered] at hsame
        exact Option.some.inj hsame
      have hnew : ∀ preLogs socket,
          State.lines { s with arrays := s.arrays.modify registered (· ++ [text]), preLogs, socket } =
            st.lines ++ [text] := by
        intro preLogs socket
        rw [hlines, hsent, hold, List.getElem?_modify_eq, List.getElem?_eq_getElem hjob]
        rfl
      rw [Story.note, if_pos ⟨hwaits, hsame⟩]
      refine ⟨h.job, hnone, h.waiter, h.logs, fun _ => (hnew _ _).symm, _,
        congrArg (Option.map _) hk, ?_⟩
      rw [LogStream.flush]
      dsimp only
      rw [hnew, List.drop_left, List.length_append, max_eq_right (Nat.le_add_right _ _),
        ← List.length_append]
      have hsend : [text].foldl Out.sendData ((Out.hello workflow).provision st.lines) =
          { st with lines := st.lines ++ [text] }.transcript workflow false := by
        have hst : { st with lines := st.lines ++ [text] }.waits := hwaits
        rw [transcript_of_waits hst hbytes hstored, Out.provision, Out.provision,
          ← List.foldl_append]
      rw [hsend]
      exact .provisioning hwaits hbytes hstored
    · have hne : registered ≠ job := fun heq => hsame (by rw [h.job, hregistered, heq])
      have hnew : ∀ preLogs socket,
          State.lines { s with arrays := s.arrays.modify job (· ++ [text]), preLogs, socket } =
            st.lines := by
        intro preLogs socket
        rw [hlines, hsent, hold, List.getElem?_modify_ne _ _ hne.symm]
      rw [Story.note, if_neg fun hand => hsame hand.2]
      refine ⟨h.job, hnone, h.waiter, h.logs, fun _ => (hnew _ _).symm, _,
        congrArg (Option.map _) hk, ?_⟩
      rw [LogStream.flush]
      dsimp only
      rw [hnew, List.drop_length, max_self]
      exact hat
  · rw [Story.note, if_neg fun hand => hwaits hand.1]
    refine ⟨h.job, hnone, h.waiter, h.logs, fun hst => absurd hst hwaits, k, ?_, hat⟩
    rw [hk, Option.map_some, hat.flush hwaits]

/-- The socket goes on, and ends the step of the lines. -/
theorem Told.wake (h : Told workflow st s) {s' : State}
    (hstep : step workflow s .woken = some s') : Told workflow (st.note .woken) s' := by
  obtain ⟨k, hk, hat⟩ := h.socket
  rw [step, hk] at hstep
  cases hat with
  | provisioning hwaits hbytes hstored =>
    rcases hw : s.waiter with - | - | r <;> rw [hw] at hstep
    · cases hstep
    · cases hstep
    obtain rfl := Option.some.inj hstep
    have hnote : st.note .woken = { st with woken := some r } := by
      rw [Story.note, h.waiter, hw]
      rfl
    rw [hnote]
    have hwoken : ¬ { st with woken := some r }.waits := fun hst => by
      cases (waits_iff.1 hst).2
    rw [← hw]
    refine @Told.socketOnly workflow st s h { st with woken := some r } _ ⟨rfl, rfl, rfl⟩ hwoken ?_
    have hflush : ∀ out, LogStream.flush s ⟨out, 0, .provisioning st.lines.length⟩ =
        ⟨out, 0, .provisioning st.lines.length⟩ := by
      intro out
      rw [LogStream.flush]
      dsimp only
      rw [← h.lines hwaits, List.drop_length, max_self]
      rfl
    have hnext : ∀ r, { st with woken := some r }.transcript workflow false =
        if r = .failed then (st.transcript workflow false).closeStep.fail
        else (st.transcript workflow false).closeStep := by
      intro r
      rw [transcript_of_waits hwaits hbytes hstored, Story.transcript, Story.console, hbytes,
        hstored, Story.provisioned, (waits_iff.1 hwaits).1]
      cases r <;> rfl
    have hopen := isOpen_transcript workflow { st with woken := some .ready }
    rw [hnext, if_neg nofun] at hopen
    rw [Socket.wake, hflush]
    dsimp only
    rw [hopen, Bool.not_true, if_neg Bool.false_ne_true, ← hnext]
    exact .fetching hwoken hbytes hstored
  | _ => cases hstep

theorem Told.chunk (h : Told workflow st s) {bytes : Bytes} {s' : State}
    (hstep : step workflow s (.chunk bytes) = some s') :
    Told workflow (st.note (.chunk bytes)) s' := by
  obtain ⟨k, hk, hat⟩ := h.socket
  rw [step, hk] at hstep
  cases hat with
  | @reading reader hwaits hreader hdone hstored =>
    have hout := @transcript_chunk workflow _ hstored bytes
    have hnext : (readChunk newReader (st.bytes ++ bytes)).2 = (readChunk reader bytes).2 := by
      rw [chunked_readChunk, hreader]
    have hlength : (streamLines (st.bytes ++ bytes)).length =
        (streamLines st.bytes).length + (readChunk reader bytes).1.length := by
      rw [streamLines, chunked_readChunk, hreader, List.length_append]
      rfl
    rw [hreader] at hout
    cases hread : readChunk reader bytes with
    | mk lines next =>
      rw [hread] at hout hnext hlength
      dsimp only at hstep hout hnext hlength
      rw [hread] at hstep
      obtain rfl := Option.some.inj hstep
      refine h.socketOnly ⟨rfl, rfl, rfl⟩ hwaits ?_
      rw [Socket.process]
      dsimp only
      rw [hout, ← hlength]
      split_ifs with hnextDone
      · exact @at_afterStream workflow { st with bytes := st.bytes ++ bytes } s hwaits hstored
          h.logs _
      · exact .reading hwaits hnext (Bool.eq_false_iff.2 hnextDone) hstored
  | _ => cases hstep

theorem Told.response (h : Told workflow st s) {ok : Bool} {s' : State}
    (hstep : step workflow s (.response ok) = some s') : Told workflow st s' := by
  obtain ⟨k, hk, hat⟩ := h.socket
  rw [step, hk] at hstep
  cases hat with
  | fetching hwaits hbytes hstored =>
    obtain rfl := Option.some.inj hstep
    have hlines : streamLines st.bytes = [] := by
      rw [hbytes]
      rfl
    refine h.socketOnly ⟨rfl, rfl, rfl⟩ hwaits ?_
    cases ok with
    | true =>
      have hread := @At.reading workflow st newReader hwaits (by rw [hbytes]; rfl) rfl hstored
      rwa [hlines] at hread
    | false =>
      have hafter := @at_afterStream workflow st s hwaits hstored h.logs (.reading newReader)
      rwa [hlines] at hafter
  | _ => cases hstep

theorem Told.ended (h : Told workflow st s) {s' : State}
    (hstep : step workflow s .ended = some s') : Told workflow st s' := by
  obtain ⟨k, hk, hat⟩ := h.socket
  rw [step, hk] at hstep
  cases hat with
  | fetching hwaits hbytes hstored =>
    obtain rfl := Option.some.inj hstep
    have hafter := @at_afterStream workflow st s hwaits hstored h.logs .fetching
    rw [hbytes] at hafter
    exact h.socketOnly ⟨rfl, rfl, rfl⟩ hwaits hafter
  | reading hwaits hreader hdone hstored =>
    obtain rfl := Option.some.inj hstep
    exact h.socketOnly ⟨rfl, rfl, rfl⟩ hwaits (at_afterStream hwaits hstored h.logs)
  | _ => cases hstep

theorem Told.status (h : Told workflow st s) {consoleOutput : Option String} {s' : State}
    (hstep : step workflow s (.status consoleOutput) = some s') :
    Told workflow (st.note (.status consoleOutput)) s' := by
  obtain ⟨k, hk, hat⟩ := h.socket
  rw [step, hk] at hstep
  cases hat with
  | status hwaits hlines hstored =>
    cases consoleOutput with
    | none =>
      obtain rfl := Option.some.inj hstep
      exact h.socketOnly ⟨rfl, rfl, rfl⟩ hwaits (at_stored hwaits hstored h.logs [])
    | some raw =>
      obtain rfl := Option.some.inj hstep
      rw [Story.note]
      split_ifs
      · exact h.socketOnly ⟨rfl, rfl, rfl⟩ hwaits (.output hwaits hlines hstored)
      · exact h.socketOnly ⟨rfl, rfl, rfl⟩ hwaits (at_stored hwaits hstored h.logs _)
  | _ => cases hstep

theorem Told.output (h : Told workflow st s) {text : Option String} {s' : State}
    (hstep : step workflow s (.output text) = some s') :
    Told workflow (st.note (.output text)) s' := by
  obtain ⟨k, hk, hat⟩ := h.socket
  rw [step, hk] at hstep
  cases hat with
  | output hwaits hlines hstored =>
    obtain rfl := Option.some.inj hstep
    exact h.socketOnly ⟨rfl, rfl, rfl⟩ hwaits (at_stored hwaits hstored h.logs _)
  | _ => cases hstep

/-- The story goes on with every event. -/
theorem Told.step (h : Told workflow st s) {e : Event} {s' : State}
    (he : e ≠ .submit ∧ e ≠ .disconnect) (hstep : step workflow s e = some s') :
    Told workflow (st.note e) s' := by
  cases e with
  | submit => exact absurd rfl he.1
  | disconnect => exact absurd rfl he.2
  | line job text => exact h.line hstep
  | installed taskId =>
    obtain rfl := Option.some.inj hstep
    obtain ⟨hjob, harrays, hwaiter, hlogs, hlines, hsocket⟩ := h.settle .ready
    exact ⟨hjob, harrays, hwaiter, hlogs, hlines, hsocket⟩
  | failed =>
    obtain rfl := Option.some.inj hstep
    exact h.settle .failed
  | persist output =>
    obtain rfl := Option.some.inj hstep
    exact h.persist output
  | connect =>
    obtain ⟨k, hk, -⟩ := h.socket
    rw [LogStream.step, hk] at hstep
    cases hstep
  | woken => exact h.wake hstep
  | response ok => exact h.response hstep
  | chunk bytes => exact h.chunk hstep
  | ended => exact h.ended hstep
  | status consoleOutput => exact h.status hstep
  | output text => exact h.output hstep

theorem Told.run {es : List Event} {s' : State} (h : Told workflow st s)
    (hes : ∀ e ∈ es, e ≠ .submit ∧ e ≠ .disconnect) (hrun : run workflow s es = some s') :
    Told workflow (es.foldl Story.note st) s' := by
  induction es generalizing st s with
  | nil =>
    obtain rfl := Option.some.inj hrun
    exact h
  | cons e es ih =>
    obtain ⟨he, hes⟩ := List.forall_mem_cons.1 hes
    obtain ⟨s₁, hstep, hrun⟩ := Option.bind_eq_some_iff.1 hrun
    exact ih (h.step he hstep) hes hrun

end

/-! ## Every run -/

/-- The run before a socket is opened; what was stored of it before a restart is there. -/
def initial (restored : Option (List String)) (logs : Option String) (taskId : String)
    (waiter : Option (Option RunReady)) : State where
  arrays := restored.toList
  preRunLogs := restored.map fun _ => 0
  preLogs := restored.map fun _ => 0
  logs := logs
  taskId := taskId
  waiter := waiter
  socket := none

def Reachable (workflow : String) (s : State) : Prop :=
  ∃ restored logs taskId waiter es, run workflow (initial restored logs taskId waiter) es = some s

theorem settle_eq (s : State) (r : RunReady) : ∃ waiter, settle s r = { s with waiter } := by
  unfold settle
  split
  · exact ⟨_, rfl⟩
  · exact ⟨_, rfl⟩

/-- There are lines only under the key of the run. -/
theorem arrays_of_step {workflow : String} {s s' : State} {e : Event}
    (h : s.preRunLogs = none → s.arrays = []) (hstep : step workflow s e = some s') :
    s'.preRunLogs = none → s'.arrays = [] := by
  cases e with
  | submit =>
    obtain rfl := Option.some.inj hstep
    exact nofun
  | line job text =>
    rw [step] at hstep
    split_ifs at hstep with hjob
    obtain rfl := Option.some.inj hstep
    intro hnone
    rw [h hnone] at hjob
    exact absurd hjob (Nat.not_lt_zero _)
  | installed taskId =>
    obtain rfl := Option.some.inj hstep
    obtain ⟨waiter, hsettle⟩ := settle_eq s .ready
    rw [hsettle]
    exact h
  | failed =>
    obtain rfl := Option.some.inj hstep
    obtain ⟨waiter, hsettle⟩ := settle_eq s .failed
    rw [hsettle]
    exact h
  | persist output =>
    obtain rfl := Option.some.inj hstep
    exact h
  | disconnect =>
    obtain ⟨k, -, rfl⟩ := Option.map_eq_some_iff.1 hstep
    exact h
  | status consoleOutput =>
    rw [step] at hstep
    split at hstep
    · cases consoleOutput <;> obtain rfl := Option.some.inj hstep <;> exact h
    · cases hstep
  | ended =>
    rw [step] at hstep
    split at hstep
    · obtain rfl := Option.some.inj hstep
      exact h
    · obtain rfl := Option.some.inj hstep
      exact h
    · cases hstep
  | _ =>
    -- The others change the socket only.
    rw [step] at hstep
    split at hstep
    · obtain rfl := Option.some.inj hstep
      exact h
    · cases hstep

theorem Reachable.arrays {workflow : String} {s : State} (h : Reachable workflow s) :
    s.preRunLogs = none → s.arrays = [] := by
  obtain ⟨restored, logs, taskId, waiter, es, hrun⟩ := h
  have hinitial : (initial restored logs taskId waiter).preRunLogs = none →
      (initial restored logs taskId waiter).arrays = [] := by
    cases restored with
    | none => exact fun _ => rfl
    | some lines => exact nofun
  generalize initial restored logs taskId waiter = s₀ at hinitial hrun
  induction es generalizing s₀ with
  | nil =>
    obtain rfl := Option.some.inj hrun
    exact hinitial
  | cons e es ih =>
    obtain ⟨s₁, hstep, hrun⟩ := Option.bind_eq_some_iff.1 hrun
    exact ih s₁ (arrays_of_step hinitial hstep) hrun

/-- The story of a socket begins when it is opened. -/
theorem told_connected {workflow : String} {s s' : State} (hs : Reachable workflow s)
    (hstep : step workflow s .connect = some s') : Told workflow (Story.start s) s' := by
  rw [step] at hstep
  split at hstep
  · obtain rfl := Option.some.inj hstep
    refine ⟨rfl, hs.arrays, rfl, rfl, fun _ => rfl, _, rfl, ?_⟩
    rw [connected]
    by_cases hlive : s.taskId = "" ∧ s.waiter = some none
    · have hwaits : (Story.start s).waits := waits_iff.2 ⟨decide_eq_true hlive, rfl⟩
      have hsent := @transcript_of_waits workflow _ hwaits rfl rfl
      rw [if_pos hlive]
      exact hsent ▸ .provisioning hwaits rfl rfl
    · have hwaits : ¬ (Story.start s).waits := fun hwaits =>
        hlive (of_decide_eq_true (waits_iff.1 hwaits).1)
      have hsent : (Story.start s).transcript workflow false =
          if s.lines = [] then Out.hello workflow
          else ((Out.hello workflow).provision s.lines).closeStep := by
        have hstart : (Story.start s).live = false := decide_eq_false hlive
        rw [Story.transcript, Story.provisioned, hstart]
        rfl
      rw [if_neg hlive]
      exact hsent ▸ .fetching hwaits rfl rfl
  · cases hstep

/-- What an open socket has sent, in every run and at every moment, as long as the run is not
    submitted again: the lines that were there and those that were appended until the socket went
    on, and every line of the console, once and in order. The frames are well bracketed, and do
    not depend on where the bytes of the console are cut. -/
theorem stream_framed (workflow : String) (s s' : State) (es : List Event)
    (hs : Reachable workflow s) (hes : ∀ e ∈ es, e ≠ .submit ∧ e ≠ .disconnect)
    (hrun : run workflow s (.connect :: es) = some s') :
    ∃ k, s'.socket = some k ∧ Framed workflow (es.foldl Story.note (Story.start s)) k := by
  obtain ⟨s₁, hconnect, hrun⟩ := Option.bind_eq_some_iff.1 hrun
  obtain ⟨k, hk, hat⟩ := ((told_connected hs hconnect).run hes hrun).socket
  exact ⟨k, hk, hat.framed⟩

/-- A run with a line before the socket is opened. -/
def sampleRun : State :=
  (run "build" (initial none none "" (some none)) [.submit, .line 0 "bids"]).get rfl

theorem reachable_sampleRun : Reachable "build" sampleRun :=
  ⟨none, none, "", some none, _, (Option.some_get _).symm⟩

/-- A line while the socket waits, the console in two chunks, and a line after it has gone on. -/
def sampleEvents : List Event :=
  [.line 0 "winner", .installed "task", .woken, .response true,
    .chunk (textEncode "data: ##[group]Build\ndata: o"), .line 0 "late",
    .chunk (textEncode "k\n\nevent: done\n\n")]

def sampleEnd : State :=
  (run "build" sampleRun (.connect :: sampleEvents)).get (by decide +kernel)

theorem stream_framed_sample : ∃ k, sampleEnd.socket = some k ∧
    Framed "build" (sampleEvents.foldl Story.note (Story.start sampleRun)) k :=
  stream_framed "build" sampleRun sampleEnd sampleEvents reachable_sampleRun (by decide)
    (Option.some_get _).symm

/-- A line that is appended after the socket has gone on is not sent. -/
theorem not_received : ¬ ∀ workflow s s' es k, Reachable workflow s →
    (∀ e ∈ es, e ≠ Event.submit ∧ e ≠ Event.disconnect) →
    run workflow s (.connect :: es) = some s' → s'.socket = some k →
    s'.lines.Sublist (dataOf k.out.frames) := by
  intro h
  have hsublist := h "build" sampleRun sampleEnd sampleEvents
    (sampleEnd.socket.get (by decide +kernel)) reachable_sampleRun (by decide)
    (Option.some_get _).symm (Option.some_get _).symm
  exact absurd hsublist (by decide +kernel)

end ComputeContract.Spindle.LogStream
