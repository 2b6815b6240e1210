import ComputeContract.Lib.Along
import ComputeContract.Repo.Repo

/-!
# The firehose

Commits are appended to a bounded backlog and published. A subscriber is first given the
frames of the backlog behind its cursor and then those that are published; between two of
its frames, and between the backlog and what is published, commits may be appended.

* `Firehose`: the sequencer and one subscriber, each step up to an `await`.
* `Faithful`: what a subscriber should be given.
* `faithful_of_careful`: it is, as long as no frame is evicted under the iteration of the
  backlog, none behind the cursor falls between the two, and none at the cursor is
  published.
-/

namespace ComputeContract

/-- Maximum backlog size. Older events are evicted. -/
def MAX_BACKLOG : ℕ := 10000

/-- A `#commit` frame. -/
structure SequencedFrame where
  seq : ℕ
  event : CommitEvent
  time : String

/-- Where a subscriber is. -/
inductive Subscription
  /-- There is none yet. -/
  | idle
  /-- A frame of the backlog is yielded; the iterator goes on at an index. -/
  | backfill (frame : SequencedFrame) (next : ℕ)
  /-- The backlog is at its end, the bus is not subscribed to yet. -/
  | between
  /-- The queue is empty: the next frame is waited for. -/
  | waiting
  /-- A published frame is yielded, others are queued. -/
  | live (frame : SequencedFrame) (queue : List SequencedFrame)
  | ended

/-- The sequencer, a subscriber with its cursor, all frames that were appended and those
    that were emitted. -/
structure Firehose where
  seq : ℕ
  backlog : List SequencedFrame
  cursor : Option ℤ
  phase : Subscription
  cancelled : Bool
  log : List SequencedFrame
  emitted : List SequencedFrame

namespace Firehose

/-- The frame is behind the cursor. -/
def wanted (cursor : Option ℤ) (frame : SequencedFrame) : Bool := cursor.all fun c => c < (frame.seq : ℤ)

/-- The loop over the backlog, from an index on, up to the next frame that is yielded. -/
def scan (cursor : Option ℤ) (i : ℕ) : List SequencedFrame → Subscription
  | [] => .between
  | frame :: frames =>
    if wanted cursor frame then .backfill frame (i + 1) else scan cursor (i + 1) frames

/-- A frame is published. -/
def publish (frame : SequencedFrame) : Subscription → Subscription
  | .waiting => .live frame []
  | .live held queue => .live held (queue ++ [frame])
  | phase => phase

/-- Behind a frame, the oldest one is dropped. -/
def push (frame : SequencedFrame) (backlog : List SequencedFrame) : List SequencedFrame :=
  let backlog := backlog ++ [frame]
  if MAX_BACKLOG < backlog.length then backlog.tail else backlog

/-- The frame of the next commit. -/
def frameOf (event : CommitEvent) (time : String) (s : Firehose) : SequencedFrame :=
  ⟨s.seq + 1, event, time⟩

def append (event : CommitEvent) (time : String) (s : Firehose) : Firehose :=
  let frame := s.frameOf event time
  { s with
    seq := s.seq + 1
    backlog := push frame s.backlog
    phase := publish frame s.phase
    log := s.log ++ [frame] }

def subscribe (cursor : Option ℤ) (s : Firehose) : Firehose :=
  match s.phase with
  | .idle => { s with cursor, phase := scan cursor 0 s.backlog }
  | _ => s

/-- A frame that was yielded is emitted, unless the subscriber was disposed of. -/
def emit (frame : SequencedFrame) (next : Subscription) (s : Firehose) : Firehose :=
  if s.cancelled then { s with phase := .ended }
  else { s with emitted := s.emitted ++ [frame], phase := next }

/-- The subscriber goes on, up to its next `await`. -/
def advance (s : Firehose) : Firehose :=
  match s.phase with
  | .backfill frame next => s.emit frame (scan s.cursor next (s.backlog.drop next))
  | .between => { s with phase := .waiting }
  | .live frame [] => s.emit frame .waiting
  | .live frame (held :: queue) => s.emit frame (.live held queue)
  | .idle | .waiting | .ended => s

/-- What happens next. -/
inductive Event
  | append (event : CommitEvent) (time : String)
  | subscribe (cursor : Option ℤ)
  | advance
  | dispose

def step (s : Firehose) : Event → Firehose
  | .append event time => s.append event time
  | .subscribe cursor => s.subscribe cursor
  | .advance => s.advance
  | .dispose => { s with cancelled := true }

def initial : Firehose := ⟨0, [], none, .idle, false, [], []⟩

/-! ## What a subscriber is given -/

/-- The frames behind the cursor, of all that were appended. -/
def due (s : Firehose) : List SequencedFrame := s.log.filter (wanted s.cursor)

/-- The frames behind the cursor are emitted in order, none left out and none twice; until
    it is disposed of, a subscriber that is given its turns is emitted all of them. -/
structure Faithful (s : Firehose) : Prop where
  ordered : s.emitted.Pairwise fun a b => a.seq < b.seq
  prefix_due : s.emitted <+: s.due
  all_due : s.phase ≠ .idle → s.cancelled = false → ∃ n, (advance^[n] s).emitted = s.due

/-- A cursor is not older than what was evicted. -/
def Recent (s : Firehose) : Event → Prop
  | .subscribe cursor =>
    ∀ frame ∈ s.log.take (s.log.length - s.backlog.length), ¬ wanted cursor frame
  | _ => True

/-- A frame does not evict another under the iteration of the backlog, is not one behind the
    cursor between the backlog and the bus, and is not one at the cursor from then on. -/
def mayAppend (s : Firehose) (frame : SequencedFrame) : Bool :=
  match s.phase with
  | .backfill _ _ => s.backlog.length < MAX_BACKLOG
  | .between => !wanted s.cursor frame
  | .waiting | .live _ _ => wanted s.cursor frame
  | .idle | .ended => true

/-- What is appended may be, until the subscriber is disposed of. -/
def Careful (s : Firehose) : Event → Prop
  | .append event time => s.cancelled = false → s.mayAppend (s.frameOf event time)
  | _ => True

instance (s : Firehose) : ∀ e, Decidable (Recent s e)
  | .subscribe cursor => inferInstanceAs (Decidable
      (∀ frame ∈ s.log.take (s.log.length - s.backlog.length), ¬ wanted cursor frame))
  | .append .. | .advance | .dispose => inferInstanceAs (Decidable True)

instance (s : Firehose) : ∀ e, Decidable (Careful s e)
  | .append event time => inferInstanceAs (Decidable
      (s.cancelled = false → s.mayAppend (s.frameOf event time)))
  | .subscribe _ | .advance | .dispose => inferInstanceAs (Decidable True)

/-- The frames that are yet to be emitted. -/
def pending (s : Firehose) : List SequencedFrame :=
  match s.phase with
  | .backfill frame next => frame :: (s.backlog.drop next).filter (wanted s.cursor)
  | .live frame queue => frame :: queue
  | _ => []

/-- The subscriber is between its first frame and its end. -/
def Running (s : Firehose) : Prop :=
  s.cancelled = false ∧ s.phase ≠ .idle

structure Inv (s : Firehose) : Prop where
  ordered : s.log.Pairwise fun a b => a.seq < b.seq
  seq_le : ∀ frame ∈ s.log, frame.seq ≤ s.seq
  suffix : s.backlog <:+ s.log
  emitted_nil : s.phase = .idle → s.emitted = []
  next_le : ∀ frame next, s.phase = .backfill frame next → next ≤ s.backlog.length
  prefix_due : s.emitted <+: s.due
  running : s.Running → s.phase ≠ .ended ∧ s.emitted ++ s.pending = s.due

variable {s : Firehose}

/-! ## Turns of the subscriber -/

/-- What the loop over the backlog finds. -/
theorem scan_spec (cursor : Option ℤ) {backlog rest : List SequencedFrame} {i : ℕ}
    (h : backlog.drop i = rest) :
    (scan cursor i rest = .between ∧ rest.filter (wanted cursor) = []) ∨
      ∃ frame next, scan cursor i rest = .backfill frame next ∧ next ≤ backlog.length ∧
        rest.filter (wanted cursor) = frame :: (backlog.drop next).filter (wanted cursor) := by
  induction rest generalizing i with
  | nil => exact .inl ⟨rfl, rfl⟩
  | cons frame rest ih =>
    have hdrop : backlog.drop (i + 1) = rest := by
      rw [← List.tail_drop, h, List.tail_cons]
    have hlt : i < backlog.length := by
      by_contra hle
      rw [List.drop_of_length_le (not_lt.1 hle)] at h
      cases h
    rw [scan, List.filter_cons]
    by_cases hwanted : wanted cursor frame
    · rw [if_pos hwanted, if_pos hwanted]
      exact .inr ⟨frame, i + 1, rfl, hlt, by rw [hdrop]⟩
    · rw [if_neg hwanted, if_neg hwanted]
      exact ih hdrop

/-- What is yet to be emitted after the loop over the backlog. -/
theorem pending_scan (s : Firehose) (i : ℕ) :
    pending { s with phase := scan s.cursor i (s.backlog.drop i) } =
      (s.backlog.drop i).filter (wanted s.cursor) := by
  rcases scan_spec s.cursor (rfl : s.backlog.drop i = _) with ⟨hscan, hnil⟩ | ⟨frame, next, hscan, _, hrest⟩
  · rw [hscan, hnil]
    rfl
  · rw [hscan, hrest]
    rfl

theorem next_le_of_scan {cursor : Option ℤ} {backlog : List SequencedFrame} {i : ℕ}
    {frame : SequencedFrame} {next : ℕ}
    (h : scan cursor i (backlog.drop i) = .backfill frame next) : next ≤ backlog.length := by
  rcases scan_spec cursor (rfl : backlog.drop i = _) with ⟨hscan, _⟩ | ⟨frame', next', hscan, hle, _⟩
  · rw [hscan] at h
    cases h
  · rw [hscan] at h
    cases h
    exact hle

theorem scan_ne {cursor : Option ℤ} {backlog : List SequencedFrame} {i : ℕ} :
    scan cursor i (backlog.drop i) ≠ .idle ∧ scan cursor i (backlog.drop i) ≠ .ended := by
  rcases scan_spec cursor (rfl : backlog.drop i = _) with ⟨hscan, _⟩ | ⟨frame', next', hscan, _⟩ <;>
    rw [hscan] <;> exact ⟨nofun, nofun⟩

/-- A turn that emits a frame. -/
structure Emits (s s' : Firehose) : Prop where
  running : s'.Running
  not_ended : s'.phase ≠ .ended
  due : s'.due = s.due
  pending : ∃ frame, s.pending = frame :: s'.pending ∧ s'.emitted = s.emitted ++ [frame]

/-- A turn of a subscriber with frames to emit. -/
theorem emits_advance (hrun : s.Running) (hpending : s.pending ≠ []) : Emits s s.advance := by
  obtain ⟨seq, backlog, cursor, phase, cancelled, log, emitted⟩ := s
  obtain ⟨hcancelled, hidle⟩ := hrun
  cases hcancelled
  cases phase with
  | idle | between | waiting | ended => exact absurd rfl hpending
  | backfill frame next =>
    refine ⟨⟨rfl, scan_ne.1⟩, scan_ne.2, rfl, frame, ?_, rfl⟩
    exact congrArg (frame :: ·) (pending_scan
      ⟨seq, backlog, cursor, .idle, false, log, emitted ++ [frame]⟩ next).symm
  | live frame queue =>
    cases queue with
    | nil => exact ⟨⟨rfl, nofun⟩, nofun, rfl, frame, rfl, rfl⟩
    | cons held queue => exact ⟨⟨rfl, nofun⟩, nofun, rfl, frame, rfl, rfl⟩

/-- What a turn leaves as it is. -/
theorem advance_frame (s : Firehose) : s.advance.seq = s.seq ∧ s.advance.backlog = s.backlog ∧
    s.advance.cursor = s.cursor ∧ s.advance.log = s.log ∧ s.advance.cancelled = s.cancelled := by
  unfold advance emit
  split
  · split_ifs <;> exact ⟨rfl, rfl, rfl, rfl, rfl⟩
  · exact ⟨rfl, rfl, rfl, rfl, rfl⟩
  · split_ifs <;> exact ⟨rfl, rfl, rfl, rfl, rfl⟩
  · split_ifs <;> exact ⟨rfl, rfl, rfl, rfl, rfl⟩
  all_goals exact ⟨rfl, rfl, rfl, rfl, rfl⟩

theorem due_advance (s : Firehose) : s.advance.due = s.due := by
  obtain ⟨_, _, hcursor, hlog, _⟩ := advance_frame s
  rw [due, due, hcursor, hlog]

/-- A turn of a subscriber that is disposed of emits nothing. -/
theorem emitted_advance_of_cancelled (h : s.cancelled = true) : s.advance.emitted = s.emitted := by
  unfold advance emit
  split <;> simp [h]

/-- A turn of a subscriber without frames to emit. -/
theorem advance_of_pending_nil (hpending : s.pending = []) :
    s.advance.emitted = s.emitted ∧ s.advance.pending = [] ∧
      (s.advance.phase = .idle → s.phase = .idle) ∧ (s.advance.phase = .ended → s.phase = .ended) := by
  obtain ⟨seq, backlog, cursor, phase, cancelled, log, emitted⟩ := s
  cases phase with
  | idle => exact ⟨rfl, rfl, id, id⟩
  | between => exact ⟨rfl, rfl, nofun, nofun⟩
  | waiting => exact ⟨rfl, rfl, id, id⟩
  | ended => exact ⟨rfl, rfl, id, id⟩
  | backfill frame next => cases hpending
  | live frame queue => cases hpending

/-- The index of the iterator after a turn. -/
theorem next_le_advance (h : ∀ frame next, s.phase = .backfill frame next → next ≤ s.backlog.length)
    {frame : SequencedFrame} {next : ℕ} (hphase : s.advance.phase = .backfill frame next) :
    next ≤ s.advance.backlog.length := by
  obtain ⟨seq, backlog, cursor, phase, cancelled, log, emitted⟩ := s
  cases phase with
  | idle => cases hphase
  | between => cases hphase
  | waiting => cases hphase
  | ended => cases hphase
  | backfill held i =>
    cases cancelled with
    | false => exact next_le_of_scan hphase
    | true => cases hphase
  | live held queue => cases queue <;> cases cancelled <;> cases hphase

theorem idle_of_advance (h : s.advance.phase = .idle) : s.phase = .idle := by
  obtain ⟨seq, backlog, cursor, phase, cancelled, log, emitted⟩ := s
  cases phase with
  | idle => rfl
  | between => cases h
  | waiting => cases h
  | ended => cases h
  | backfill held i =>
    cases cancelled with
    | false => exact absurd h scan_ne.1
    | true => cases h
  | live held queue => cases queue <;> cases cancelled <;> cases h

theorem Inv.advance (h : Inv s) : Inv s.advance := by
  obtain ⟨hseq, hbacklog, hcursor, hlog, hcancelled⟩ := advance_frame s
  -- A subscriber that is running is after it was, with the frames it emits moved over.
  have hrunning : s.advance.Running →
      s.advance.phase ≠ .ended ∧ s.advance.emitted ++ s.advance.pending = s.advance.due := by
    intro hrun
    have hrun₀ : s.Running := ⟨hcancelled ▸ hrun.1, fun hidle => hrun.2 (by
      rw [Firehose.advance, hidle]
      exact hidle)⟩
    obtain ⟨hended, hdue⟩ := h.running hrun₀
    by_cases hpending : s.pending = []
    · obtain ⟨hemitted, hnil, _, hended'⟩ := advance_of_pending_nil hpending
      rw [hpending] at hdue
      rw [hemitted, hnil, due_advance]
      exact ⟨fun he => hended (hended' he), hdue⟩
    · obtain ⟨_, hended', _, frame, hcons, hemitted⟩ := emits_advance hrun₀ hpending
      rw [hcons] at hdue
      rw [hemitted, due_advance, ← hdue, List.append_assoc]
      exact ⟨hended', rfl⟩
  refine ⟨hlog ▸ h.ordered, ?_, ?_, fun hidle => ?_, fun _ _ => next_le_advance h.next_le, ?_, hrunning⟩
  · rw [hlog, hseq]
    exact h.seq_le
  · rw [hlog, hbacklog]
    exact h.suffix
  · have hidle₀ := idle_of_advance hidle
    rw [Firehose.advance, hidle₀]
    exact h.emitted_nil hidle₀
  · by_cases hrun : s.advance.Running
    · rw [← (hrunning hrun).2]
      exact List.prefix_append _ _
    · have hfix : s.advance.emitted = s.emitted := by
        cases hc : s.cancelled with
        | true => exact emitted_advance_of_cancelled hc
        | false =>
          have hidle := idle_of_advance (not_not.1 fun hne => hrun ⟨hcancelled.trans hc, hne⟩)
          rw [Firehose.advance, hidle]
      rw [hfix, due_advance]
      exact h.prefix_due

/-- A subscriber that is given its turns emits all that is due. -/
theorem Inv.all_due (h : Inv s) (hrun : s.Running) :
    ∃ n, (Firehose.advance^[n] s).emitted = s.due := by
  obtain ⟨n, hn⟩ : ∃ n, s.pending.length = n := ⟨_, rfl⟩
  induction n generalizing s with
  | zero =>
    have hdue := (h.running hrun).2
    rw [List.length_eq_zero_iff.1 hn, List.append_nil] at hdue
    exact ⟨0, hdue⟩
  | succ n ih =>
    have hemits := emits_advance hrun (List.ne_nil_of_length_eq_add_one hn)
    obtain ⟨frame, hcons, _⟩ := hemits.pending
    rw [hcons, List.length_cons, Nat.succ_inj] at hn
    obtain ⟨k, hk⟩ := ih h.advance hemits.running hn
    exact ⟨k + 1, hk.trans hemits.due⟩

/-! ## The other steps -/

theorem length_le_push (frame : SequencedFrame) (backlog : List SequencedFrame) :
    backlog.length ≤ (push frame backlog).length := by
  rw [push]
  split_ifs <;> simp

theorem push_suffix (frame : SequencedFrame) (backlog : List SequencedFrame) :
    push frame backlog <:+ backlog ++ [frame] := by
  rw [push]
  split_ifs
  · exact List.tail_suffix _
  · exact List.suffix_refl _

theorem push_of_lt (frame : SequencedFrame) {backlog : List SequencedFrame}
    (h : backlog.length < MAX_BACKLOG) : push frame backlog = backlog ++ [frame] := by
  rw [push, if_neg]
  rw [List.length_append, List.length_singleton]
  omega

theorem publish_eq_idle {frame : SequencedFrame} {phase : Subscription} :
    publish frame phase = .idle ↔ phase = .idle := by
  cases phase <;> simp [publish]

theorem publish_eq_backfill {frame held : SequencedFrame} {phase : Subscription} {next : ℕ} :
    publish frame phase = .backfill held next ↔ phase = .backfill held next := by
  cases phase <;> simp [publish]

theorem due_append (s : Firehose) (event : CommitEvent) (time : String) :
    (s.append event time).due =
      s.due ++ [s.frameOf event time].filter (wanted s.cursor) := List.filter_append ..

/-- The frames that are yet to be emitted, with one that is published if it is due. -/
theorem pending_publish {frame : SequencedFrame}
    (hnext : ∀ frame next, s.phase = .backfill frame next → next ≤ s.backlog.length)
    (hrun : s.Running) (hended : s.phase ≠ .ended) (hmay : s.mayAppend frame) :
    pending { s with backlog := push frame s.backlog, phase := publish frame s.phase } =
      s.pending ++ [frame].filter (wanted s.cursor) := by
  obtain ⟨seq, backlog, cursor, phase, cancelled, log, emitted⟩ := s
  cases phase with
  | idle => exact absurd rfl hrun.2
  | ended => exact absurd rfl hended
  | backfill held next =>
    have hlt : backlog.length < MAX_BACKLOG := of_decide_eq_true hmay
    have hdrop : ((push frame backlog).drop next).filter (wanted cursor) =
        (backlog.drop next).filter (wanted cursor) ++ [frame].filter (wanted cursor) := by
      rw [push_of_lt frame hlt, List.drop_append_of_le_length (hnext held next rfl),
        List.filter_append]
    exact congrArg (held :: ·) hdrop
  | between =>
    have hnot : ¬ wanted cursor frame := by simpa [mayAppend] using hmay
    rw [List.filter_cons_of_neg hnot]
    rfl
  | waiting =>
    rw [List.filter_cons_of_pos (by exact hmay)]
    rfl
  | live held queue =>
    rw [List.filter_cons_of_pos (by exact hmay)]
    rfl

theorem Inv.append (h : Inv s) {event : CommitEvent} {time : String}
    (hcareful : Careful s (.append event time)) : Inv (s.append event time) := by
  refine ⟨?_, fun frame hframe => ?_, ?_, fun hidle => h.emitted_nil (publish_eq_idle.1 hidle),
    fun frame next hphase => ?_, ?_, fun hrun => ?_⟩
  · refine List.pairwise_append.2 ⟨h.ordered, List.pairwise_singleton _ _, fun a ha b hb => ?_⟩
    rw [List.mem_singleton.1 hb]
    exact Nat.lt_succ_of_le (h.seq_le a ha)
  · rcases List.mem_append.1 hframe with hframe | hframe
    · exact Nat.le_succ_of_le (h.seq_le frame hframe)
    · rw [List.mem_singleton.1 hframe]
      exact le_rfl
  · refine (push_suffix _ _).trans ?_
    obtain ⟨evicted, hevicted⟩ := h.suffix
    exact ⟨evicted, by rw [← List.append_assoc, hevicted]; rfl⟩
  · exact (h.next_le frame next (publish_eq_backfill.1 hphase)).trans (length_le_push _ _)
  · rw [due_append]
    exact h.prefix_due.trans (List.prefix_append _ _)
  · have hrun₀ : s.Running := ⟨hrun.1, fun hidle => hrun.2 (publish_eq_idle.2 hidle)⟩
    obtain ⟨hended, hdue⟩ := h.running hrun₀
    refine ⟨fun he => hended ?_, ?_⟩
    · change publish _ s.phase = _ at he
      cases hphase : s.phase <;> rw [hphase] at he <;> first | rfl | cases he
    · have hpending := pending_publish h.next_le hrun₀ hended (hcareful hrun.1)
      rw [due_append, ← hdue, List.append_assoc]
      exact congrArg (s.emitted ++ ·) hpending

/-- What is evicted is not due. -/
theorem Inv.subscribe (h : Inv s) {cursor : Option ℤ} (hrecent : Recent s (.subscribe cursor)) :
    Inv (s.subscribe cursor) := by
  unfold Firehose.subscribe
  split
  · rename_i hidle
    have hemitted := h.emitted_nil hidle
    refine ⟨h.ordered, h.seq_le, h.suffix, fun _ => hemitted,
      fun frame next hphase => next_le_of_scan hphase, ?_, fun _ => ⟨scan_ne.2, ?_⟩⟩
    · exact hemitted ▸ List.nil_prefix
    · have hpending := pending_scan { s with cursor } 0
      change s.emitted ++ pending { s with cursor, phase := scan cursor 0 (s.backlog.drop 0) } =
        s.log.filter (wanted cursor)
      rw [hemitted, List.nil_append]
      refine hpending.trans ?_
      obtain ⟨evicted, hevicted⟩ := h.suffix
      have hold : evicted.filter (wanted cursor) = [] := by
        refine List.filter_eq_nil_iff.2 fun frame hframe => hrecent frame ?_
        rw [← hevicted, List.length_append, Nat.add_sub_cancel, List.take_left']
        · exact hframe
        · rfl
      rw [List.drop_zero, ← hevicted, List.filter_append, hold, List.nil_append]
  · exact h

theorem inv_step (h : Inv s) {e : Event} (hrecent : Recent s e) (hcareful : Careful s e) :
    Inv (step s e) := by
  cases e with
  | append event time => exact h.append hcareful
  | subscribe cursor => exact h.subscribe hrecent
  | advance => exact h.advance
  | dispose =>
    exact ⟨h.ordered, h.seq_le, h.suffix, h.emitted_nil, h.next_le, h.prefix_due,
      fun hrun => nomatch hrun.1⟩

theorem inv_initial : Inv initial :=
  ⟨List.Pairwise.nil, nofun, List.suffix_refl _, fun _ => rfl, nofun, List.nil_prefix,
    fun hrun => absurd rfl hrun.2⟩

theorem Inv.faithful (h : Inv s) : Faithful s :=
  ⟨(h.ordered.sublist List.filter_sublist).sublist h.prefix_due.sublist, h.prefix_due,
    fun hidle hcancelled => h.all_due ⟨hcancelled, hidle⟩⟩

/-- A subscriber is given every frame behind its cursor once and in order in every run that
    is careful. -/
theorem faithful_of_careful (events : List Event)
    (h : Along step (fun s e => Recent s e ∧ Careful s e) initial events) :
    Along step (fun s e => Faithful (step s e)) initial events := by
  have hstep : ∀ s e, Inv s → Recent s e ∧ Careful s e → Faithful (step s e) ∧ Inv (step s e) := by
    intro s e hs he
    have hnext := inv_step hs he.1 he.2
    exact ⟨hnext.faithful, hnext⟩
  exact along_of_inv hstep inv_initial h

/-! ## A commit between the backlog and the bus -/

/-- An empty commit. -/
def sampleCommit : CommitEvent :=
  ⟨"did:plc:abc", ⟨[]⟩, sampleTid, none, [], []⟩

theorem faithful_sample : Along step (fun s e => Faithful (step s e)) initial
    [.append sampleCommit "", .subscribe (some 0), .append sampleCommit "", .advance, .advance,
      .advance, .append sampleCommit ""] :=
  faithful_of_careful [.append sampleCommit "", .subscribe (some 0), .append sampleCommit "",
    .advance, .advance, .advance, .append sampleCommit ""] (by decide +kernel)

/-- What is appended between the two is not emitted. -/
theorem not_faithful : ¬ ∀ events : List Event, Along step Recent initial events →
    Along step (fun s e => Faithful (step s e)) initial events := by
  intro h
  have hrun := h [.subscribe (some 0), .append sampleCommit "", .advance]
    ⟨by simp [Recent, initial], trivial, trivial, trivial⟩
  obtain ⟨n, hn⟩ := hrun.2.2.1.all_due nofun rfl
  -- The subscriber waits, with nothing in its queue.
  rw [Function.iterate_fixed (by rfl)] at hn
  cases hn

end Firehose

end ComputeContract
