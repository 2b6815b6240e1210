import ComputeContract.Lib.Along
import ComputeContract.Spindle.Pipeline

/-!
# The event stream

The spindle gives every status event a time that increases, keeps the last events in a log
that is saved to disk, and sends them to its subscribers: first those of the log behind the
cursor, then each as it comes. The clock that makes the times increase is not saved.

* `EventStream`: the log, its copy on disk, the subscribers, over restarts.
* `Delivered`: what should hold in every state.
* `delivered_of_careful`: it does as long as the times stay ahead of the log.
-/

namespace ComputeContract.Spindle

/-! ## A capped log -/

section LastN

variable {α : Type}

/-- `l.slice(-n)`. -/
def lastN (n : ℕ) (l : List α) : List α := l.drop (l.length - n)

theorem length_lastN (n : ℕ) (l : List α) : (lastN n l).length = min n l.length := by
  rw [lastN, List.length_drop]
  omega

theorem lastN_of_length_le {n : ℕ} {l : List α} (h : l.length ≤ n) : lastN n l = l := by
  rw [lastN, Nat.sub_eq_zero_of_le h, List.drop_zero]

theorem lastN_lastN (n : ℕ) (l : List α) : lastN n (lastN n l) = lastN n l :=
  lastN_of_length_le (by rw [length_lastN]; exact Nat.min_le_left _ _)

/-- An item is added to a capped log, the oldest one is dropped if the log is full. -/
theorem lastN_append_singleton {n : ℕ} (hn : 0 < n) (l : List α) (a : α) :
    lastN n (l ++ [a]) = (if n ≤ (lastN n l).length then (lastN n l).tail else lastN n l) ++ [a] := by
  rw [length_lastN, lastN, lastN, List.length_append, List.length_singleton]
  by_cases hle : n ≤ l.length
  · rw [if_pos (by omega), List.tail_drop, List.drop_append_of_le_length (by omega)]
    congr 2
    omega
  · rw [if_neg (by omega), List.drop_append_of_le_length (by omega)]
    congr 2
    omega

end LastN

/-! ## Events -/

def MAX_EVENT_LOG : ℕ := 1000

structure EventsEnvelope where
  rkey : String
  event : PipelineStatusRecord
  /-- In nanoseconds, as an exact integer. -/
  created : ℤ
  deriving DecidableEq

/-- An open socket of `/events`: its cursor, how many events had left the log when it was
    opened, and what was sent to it. -/
structure Client where
  cursor : ℤ
  since : ℕ
  received : List EventsEnvelope
  deriving DecidableEq

/-- The clock, the log and its copy on disk, the sockets, and all events over the restarts. -/
structure EventStream where
  lastNanos : ℤ
  eventLog : List EventsEnvelope
  disk : List EventsEnvelope
  clients : List Client
  history : List EventsEnvelope

/-- What comes of a write to the disk: it may fail, or be cut off, which reads as empty. -/
inductive Save
  | saved
  | failed
  | torn
  deriving DecidableEq

namespace EventStream

/-- The next time: the clock, in milliseconds, unless it is not ahead of the last one. -/
def nowNs (reading : ℤ) (s : EventStream) : ℤ :=
  let now := reading * 1000000
  if now ≤ s.lastNanos then s.lastNanos + 1000000 else now

def saveEventLog (save : Save) (s : EventStream) : EventStream :=
  { s with disk :=
      match save with
      | .saved => s.eventLog
      | .failed => s.disk
      | .torn => [] }

/-- An event is stored, and sent to the sockets that are open. -/
def broadcastStatus (rkey : String) (event : PipelineStatusRecord) (reading : ℤ) (save : Save)
    (s : EventStream) : EventStream :=
  let envelope : EventsEnvelope := ⟨rkey, event, s.nowNs reading⟩
  let log := if MAX_EVENT_LOG ≤ s.eventLog.length then s.eventLog.tail else s.eventLog
  saveEventLog save { s with
    lastNanos := s.nowNs reading
    eventLog := log ++ [envelope]
    clients := s.clients.map fun c => { c with received := c.received ++ [envelope] }
    history := s.history ++ [envelope] }

/-- The event is behind the cursor, if there is one. -/
def behind (cursor : ℤ) (e : EventsEnvelope) : Bool := cursor ≤ 0 || cursor < e.created

/-- A socket opens: it is sent what is behind its cursor, and subscribed. -/
def onopen (cursor : ℤ) (s : EventStream) : EventStream :=
  { s with clients := s.clients ++
      [⟨cursor, s.history.length - s.eventLog.length, s.eventLog.filter (behind cursor)⟩] }

/-- The process starts again, and loads the log. -/
def restart (s : EventStream) : EventStream :=
  { s with lastNanos := 0, eventLog := lastN MAX_EVENT_LOG s.disk, clients := [] }

/-- What happens next; a socket to which a send throws is closed. -/
inductive Event
  | broadcast (rkey : String) (event : PipelineStatusRecord) (reading : ℤ) (save : Save)
  | onopen (cursor : ℤ)
  | close (i : ℕ)
  | restart

def step (s : EventStream) : Event → EventStream
  | .broadcast rkey event reading save => s.broadcastStatus rkey event reading save
  | .onopen cursor => s.onopen cursor
  | .close i => { s with clients := s.clients.eraseIdx i }
  | .restart => s.restart

def initial : EventStream := ⟨0, [], [], [], []⟩

/-! ## What is delivered -/

/-- What a socket should have been sent: of the events that were in the log when it opened
    and those since, the ones behind its cursor. -/
def due (s : EventStream) (c : Client) : List EventsEnvelope :=
  (s.history.drop c.since).filter (behind c.cursor)

/-- The times increase, the log is the last events, and each socket was sent what is behind
    its cursor. -/
structure Delivered (s : EventStream) : Prop where
  increasing : s.history.Pairwise fun a b => a.created < b.created
  capped : s.eventLog = lastN MAX_EVENT_LOG s.history
  delivered : ∀ c ∈ s.clients, c.received = s.due c

/-- A cursor is the time of an event, or there is none. -/
def Seen (s : EventStream) : Event → Prop
  | .onopen cursor => cursor ≤ 0 ∨ cursor ∈ s.history.map EventsEnvelope.created
  | _ => True

/-- The process starts again with the log that it had. -/
def Stored (s : EventStream) : Event → Prop
  | .restart => s.disk = s.eventLog
  | _ => True

/-- The last event of the log is not ahead of the last time, or behind the clock. -/
def Ahead (s : EventStream) : Event → Prop
  | .broadcast _ _ reading _ => ∀ e ∈ s.eventLog.getLast?,
      e.created ≤ s.lastNanos ∨ e.created < reading * 1000000
  | _ => True

instance (s : EventStream) : ∀ e, Decidable (Seen s e)
  | .onopen cursor => inferInstanceAs
      (Decidable (cursor ≤ 0 ∨ cursor ∈ s.history.map EventsEnvelope.created))
  | .broadcast .. | .close _ | .restart => inferInstanceAs (Decidable True)

instance (s : EventStream) : ∀ e, Decidable (Stored s e)
  | .restart => inferInstanceAs (Decidable (s.disk = s.eventLog))
  | .broadcast .. | .close _ | .onopen _ => inferInstanceAs (Decidable True)

instance (s : EventStream) : ∀ e, Decidable (Ahead s e)
  | .broadcast _ _ reading _ => inferInstanceAs (Decidable (∀ e ∈ s.eventLog.getLast?,
      e.created ≤ s.lastNanos ∨ e.created < reading * 1000000))
  | .restart | .close _ | .onopen _ => inferInstanceAs (Decidable True)

variable {s : EventStream}

/-! ## The steps -/

/-- A socket's cursor is that of an event, and its events are not from after the end. -/
structure Fits (s : EventStream) (c : Client) : Prop where
  since_le : c.since ≤ s.history.length
  seen : c.cursor ≤ 0 ∨ c.cursor ∈ s.history.map EventsEnvelope.created

structure Inv (s : EventStream) : Prop extends Delivered s where
  fits : ∀ c ∈ s.clients, Fits s c

theorem lastNanos_lt_nowNs (reading : ℤ) (s : EventStream) : s.lastNanos < s.nowNs reading := by
  rw [nowNs]
  split_ifs <;> omega

theorem le_nowNs (reading : ℤ) (s : EventStream) : reading * 1000000 ≤ s.nowNs reading := by
  rw [nowNs]
  split_ifs <;> omega

/-- The log ends with the last event. -/
theorem getLast?_eventLog (h : Delivered s) : s.eventLog.getLast? = s.history.getLast? := by
  rw [h.capped, lastN, List.getLast?_drop]
  split_ifs with hle
  · have hnil : s.history = [] := List.length_eq_zero_iff.1 (by
      have hmax : MAX_EVENT_LOG = 1000 := rfl
      omega)
    rw [hnil]
    rfl
  · rfl

/-- The next time is after all events. -/
theorem lt_nowNs (h : Delivered s) {rkey : String} {event : PipelineStatusRecord} {reading : ℤ}
    {save : Save} (hahead : Ahead s (.broadcast rkey event reading save)) :
    ∀ e ∈ s.history, e.created < s.nowNs reading := by
  intro e he
  obtain ⟨last, hlast⟩ := Option.isSome_iff_exists.1
    (List.getLast?_isSome.2 (List.ne_nil_of_mem he))
  have hlt : last.created < s.nowNs reading := by
    have hnow := lastNanos_lt_nowNs reading s
    have hclock := le_nowNs reading s
    rcases hahead last (getLast?_eventLog h ▸ hlast) with hle | hlt
    · omega
    · omega
  obtain ⟨before, hbefore⟩ := List.getLast?_eq_some_iff.1 hlast
  have hincreasing := h.increasing
  rw [hbefore, List.pairwise_append] at hincreasing
  rw [hbefore, List.mem_append, List.mem_singleton] at he
  rcases he with he | rfl
  · exact (hincreasing.2.2 e he last (List.mem_singleton_self last)).trans hlt
  · exact hlt

theorem Inv.broadcast (h : Inv s) {rkey : String} {event : PipelineStatusRecord} {reading : ℤ}
    {save : Save} (hahead : Ahead s (.broadcast rkey event reading save)) :
    Inv (s.broadcastStatus rkey event reading save) := by
  have hlt := lt_nowNs h.toDelivered hahead
  refine ⟨⟨?_, ?_, fun c hc => ?_⟩, fun c hc => ?_⟩
  · refine List.pairwise_append.2 ⟨h.increasing, List.pairwise_singleton _ _, fun a ha b hb => ?_⟩
    rw [List.mem_singleton.1 hb]
    exact hlt a ha
  · change (if _ then _ else _) ++ _ = lastN MAX_EVENT_LOG (s.history ++ _)
    rw [lastN_append_singleton (by decide), ← h.capped]
  · obtain ⟨c, hopen, rfl⟩ := List.mem_map.1 hc
    obtain ⟨hsince, hseen⟩ := h.fits c hopen
    -- The new event is behind every cursor.
    have hbehind : behind c.cursor ⟨rkey, event, s.nowNs reading⟩ := by
      rw [behind, Bool.or_eq_true, decide_eq_true_eq, decide_eq_true_eq]
      refine hseen.imp_right fun hmem => ?_
      obtain ⟨e, he, hcreated⟩ := List.mem_map.1 hmem
      rw [← hcreated]
      exact hlt e he
    change c.received ++ _ = ((s.history ++ _).drop c.since).filter (behind c.cursor)
    rw [List.drop_append_of_le_length hsince, List.filter_append, h.delivered c hopen,
      List.filter_cons_of_pos hbehind]
    rfl
  · obtain ⟨c, hopen, rfl⟩ := List.mem_map.1 hc
    obtain ⟨hsince, hseen⟩ := h.fits c hopen
    refine ⟨hsince.trans ?_, hseen.imp_right fun hmem => ?_⟩
    · change s.history.length ≤ (s.history ++ _).length
      rw [List.length_append]
      exact Nat.le_add_right _ _
    · change _ ∈ (s.history ++ _).map _
      rw [List.map_append]
      exact List.mem_append_left _ hmem

theorem Inv.onopen (h : Inv s) {cursor : ℤ} (hseen : Seen s (.onopen cursor)) :
    Inv (s.onopen cursor) := by
  refine ⟨⟨h.increasing, h.capped, fun c hc => ?_⟩, fun c hc => ?_⟩
  · rcases List.mem_append.1 hc with hc | hc
    · exact h.delivered c hc
    · rw [List.mem_singleton.1 hc]
      change s.eventLog.filter _ = (s.history.drop (s.history.length - s.eventLog.length)).filter _
      have hlength : s.history.length - s.eventLog.length = s.history.length - MAX_EVENT_LOG := by
        rw [h.capped, length_lastN]
        omega
      rw [hlength, h.capped]
      rfl
  · rcases List.mem_append.1 hc with hc | hc
    · exact ⟨(h.fits c hc).1, (h.fits c hc).2⟩
    · rw [List.mem_singleton.1 hc]
      exact ⟨Nat.sub_le _ _, hseen⟩

theorem Inv.restart (h : Inv s) (hstored : Stored s .restart) : Inv s.restart := by
  have hcapped : lastN MAX_EVENT_LOG s.disk = lastN MAX_EVENT_LOG s.history := by
    rw [show s.disk = s.eventLog from hstored, h.capped, lastN_lastN]
  refine ⟨⟨h.increasing, ?_, fun _ hc => absurd hc List.not_mem_nil⟩,
    fun _ hc => absurd hc List.not_mem_nil⟩
  dsimp only [Spindle.EventStream.restart]
  exact hcapped

theorem inv_step (h : Inv s) {e : Event} (hseen : Seen s e) (hstored : Stored s e)
    (hahead : Ahead s e) : Inv (step s e) := by
  cases e with
  | broadcast rkey event reading save => exact h.broadcast hahead
  | onopen cursor => exact h.onopen hseen
  | close i =>
    refine ⟨⟨h.increasing, h.capped, fun c hc => h.delivered c (List.mem_of_mem_eraseIdx hc)⟩,
      fun c hc => ?_⟩
    have hfits := h.fits c (List.mem_of_mem_eraseIdx hc)
    exact ⟨hfits.1, hfits.2⟩
  | restart => exact h.restart hstored

theorem inv_initial : Inv initial :=
  ⟨⟨List.Pairwise.nil, rfl, fun _ hc => absurd hc List.not_mem_nil⟩,
    fun _ hc => absurd hc List.not_mem_nil⟩

/-- The times increase and every subscriber is sent what is behind its cursor, once and in
    order, in every run where the clock is ahead of the log and the log is saved before a
    restart. -/
theorem delivered_of_careful (events : List Event)
    (h : Along step (fun s e => Seen s e ∧ Stored s e ∧ Ahead s e) initial events) :
    Along step (fun s e => Delivered (step s e)) initial events := by
  have hstep : ∀ s e, Inv s → Seen s e ∧ Stored s e ∧ Ahead s e →
      Delivered (step s e) ∧ Inv (step s e) := by
    intro s e hs he
    have hnext := inv_step hs he.1 he.2.1 he.2.2
    exact ⟨hnext.toDelivered, hnext⟩
  exact along_of_inv hstep inv_initial h

/-! ## A restart after a burst -/

/-- A status, at a clock of so many milliseconds. -/
def sampleBroadcast (reading : ℤ) : Event :=
  .broadcast "3kabcdefghijk" ⟨"ci", .running, none⟩ reading .saved

theorem delivered_sample : Along step (fun s e => Delivered (step s e)) initial
    [sampleBroadcast 1, sampleBroadcast 1, .onopen 1000000, .restart, .onopen 2000000,
      sampleBroadcast 3] :=
  delivered_of_careful [sampleBroadcast 1, sampleBroadcast 1, .onopen 1000000, .restart,
    .onopen 2000000, sampleBroadcast 3] (by decide +kernel)

/-- Two events of one millisecond, a restart, and one of the next millisecond: the last two
    have the same time. -/
theorem not_delivered : ¬ ∀ events : List Event,
    Along step (fun s e => Seen s e ∧ Stored s e) initial events →
      Along step (fun s e => Delivered (step s e)) initial events := by
  intro h
  have hrun := h [sampleBroadcast 1, sampleBroadcast 1, .restart, sampleBroadcast 2]
    (by decide +kernel)
  exact absurd hrun.2.2.2.1.increasing (by decide +kernel)

end EventStream

end ComputeContract.Spindle
