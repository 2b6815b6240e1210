import ComputeContract.Relay.Server

/-!
# Relayed requests

A request that was dispatched is settled, or pending with its timeout armed, or queued for
a subscriber to come back with the grace timer armed. The invariant counts the requests in
each place, together with those in the hands of the operation that moves them
(`Accounts`).

* `no_request_lost`: no request is lost or settled twice, as long as `send` does not throw
  on a dispatch or in the middle of a flush.
-/

namespace ComputeContract

open AssocList

namespace RelayState

/-- The requests in the queues. -/
def queuedIds (queues : List (String × ReconnectQueue)) : List String :=
  queues.flatMap fun q => q.2.entries.map QueuedRelay.requestId

/-- The timers of the pending requests. -/
def pendingTimers (pending : List (String × PendingRequest)) : List (ℕ × TimerTask) :=
  pending.map fun p => (p.2.timer, .relayTimeout p.1)

/-- The timers of the queues. -/
def queueTimers (queues : List (String × ReconnectQueue)) : List (ℕ × TimerTask) :=
  queues.map fun q => (q.2.graceTimer, .reconnectGrace q.1)

/-- Every dispatched request is settled, pending, queued or in hand, once; the armed
    timers are those of the pending requests and of the queues. -/
structure Accounts (s : RelayState) (hand dispatched : List String) : Prop where
  count : ∀ id, (keys s.settled).count id + (keys s.pendingRequests).count id +
    (queuedIds s.reconnectQueues).count id + hand.count id = dispatched.count id
  nodup : dispatched.Nodup
  queues : (keys s.reconnectQueues).Nodup
  armed : s.timers.Perm (pendingTimers s.pendingRequests ++ queueTimers s.reconnectQueues)
  timers : (keys s.timers).Nodup
  fresh : ∀ t ∈ s.timers, t.1 < s.nextTimer

variable {s s' : RelayState} {hand dispatched : List String}

namespace Accounts

/-- The invariant looks at the requests and their timers only. -/
theorem of_same (h : Accounts s hand dispatched) (hsettled : s'.settled = s.settled)
    (hpending : s'.pendingRequests = s.pendingRequests)
    (hqueues : s'.reconnectQueues = s.reconnectQueues) (htimers : s'.timers = s.timers)
    (hnext : s'.nextTimer = s.nextTimer) : Accounts s' hand dispatched where
  count id := by rw [hsettled, hpending, hqueues, h.count]
  nodup := h.nodup
  queues := hqueues ▸ h.queues
  armed := by rw [htimers, hpending, hqueues]; exact h.armed
  timers := htimers ▸ h.timers
  fresh := by rw [htimers, hnext]; exact h.fresh

/-- Nor at the order of those in hand. -/
theorem of_perm {hand' : List String} (h : Accounts s hand dispatched) (hp : hand.Perm hand') :
    Accounts s hand' dispatched :=
  { h with count := fun id => by rw [← hp.count_eq, h.count] }

theorem count_le (h : Accounts s hand dispatched) (id : String) :
    (keys s.settled).count id + (keys s.pendingRequests).count id +
      (queuedIds s.reconnectQueues).count id + hand.count id ≤ 1 := by
  rw [h.count]
  exact List.nodup_iff_count_le_one.1 h.nodup id

theorem nodup_pending (h : Accounts s hand dispatched) : (keys s.pendingRequests).Nodup :=
  List.nodup_iff_count_le_one.2 fun id => by
    have := h.count_le id
    omega

/-- A new timer. -/
theorem setTimeout (h : Accounts s hand dispatched) (task : TimerTask) :
    (keys (s.setTimeout task).2.timers).Nodup ∧
      ∀ t ∈ (s.setTimeout task).2.timers, t.1 < (s.setTimeout task).2.nextTimer := by
  constructor
  · refine List.nodup_cons.2 ⟨fun hmem => ?_, h.timers⟩
    obtain ⟨task', ht⟩ := mem_keys.1 hmem
    exact absurd (h.fresh _ ht) (lt_irrefl _)
  · exact List.forall_mem_cons.2 ⟨Nat.lt_succ_self _, fun t ht => (h.fresh t ht).trans
      (Nat.lt_succ_self _)⟩

/-- Dropping timers leaves the others. -/
theorem clearTimeouts (h : Accounts s hand dispatched) {cleared rest : List (ℕ × TimerTask)}
    (hp : s.timers.Perm (cleared ++ rest)) :
    ((s.clearTimeouts (keys cleared)).timers).Perm rest ∧
      (keys (s.clearTimeouts (keys cleared)).timers).Nodup ∧
      ∀ t ∈ (s.clearTimeouts (keys cleared)).timers, t.1 < s.nextTimer :=
  ⟨filter_not_mem_keys h.timers hp, h.timers.sublist (List.filter_sublist.map _),
    fun t ht => h.fresh t (List.mem_filter.1 ht).1⟩

/-! ## Moving requests -/

/-- A new request comes in hand. -/
theorem dispatch (h : Accounts s hand dispatched) {id : String} (hnew : id ∉ dispatched) :
    Accounts s (id :: hand) (dispatched ++ [id]) where
  count id' := by
    have := h.count id'
    simp only [List.count_append, List.count_cons, List.count_nil]
    omega
  nodup := List.nodup_append.2 ⟨h.nodup, List.nodup_singleton _, fun a ha b hb => by
    rintro rfl
    exact hnew (List.mem_singleton.1 hb ▸ ha)⟩
  queues := h.queues
  armed := h.armed
  timers := h.timers
  fresh := h.fresh

/-- Requests in hand are settled. -/
theorem settle (settlements : List (String × Settlement))
    (h : Accounts s (keys settlements ++ hand) dispatched) :
    Accounts { s with settled := s.settled ++ settlements } hand dispatched where
  count id := by
    have := h.count id
    simp only [keys_append, List.count_append] at this ⊢
    omega
  nodup := h.nodup
  queues := h.queues
  armed := h.armed
  timers := h.timers
  fresh := h.fresh

/-- A request in hand is sent, whether or not the `send` returns. -/
theorem sendRequest {request : QueuedRelay} (h : Accounts s (request.requestId :: hand) dispatched)
    (subdomain : String) (ws : SocketId) (sendThrows : String → Bool) :
    Accounts (s.sendRequest subdomain ws sendThrows request).1 hand dispatched := by
  obtain ⟨htimers, hfresh⟩ := h.setTimeout (.relayTimeout request.requestId)
  have hnew : request.requestId ∉ keys s.pendingRequests := fun hmem => by
    have hcount := h.count_le request.requestId
    have hpos := List.count_pos_iff.2 hmem
    rw [List.count_cons_self] at hcount
    omega
  have hpending : Accounts { (s.setTimeout (.relayTimeout request.requestId)).2 with
      pendingRequests := set request.requestId ⟨subdomain, s.nextTimer, request.frame⟩
        s.pendingRequests } hand dispatched := by
    refine ⟨fun id => ?_, h.nodup, h.queues, ?_, htimers, hfresh⟩
    · have := h.count id
      simp only [RelayState.setTimeout, keys_set_of_not_mem _ hnew, List.count_append, List.count_cons,
        List.count_nil] at this ⊢
      omega
    · simp only [RelayState.setTimeout, set_of_not_mem _ hnew, pendingTimers, List.map_append]
      rw [List.append_assoc]
      exact (h.armed.cons _).trans List.perm_middle.symm
  unfold RelayState.sendRequest
  dsimp only
  split_ifs
  · exact hpending
  · exact hpending.of_same rfl rfl rfl rfl rfl

/-- A pending request comes in hand. -/
theorem takePending (h : Accounts s hand dispatched) {id : String} {pending : PendingRequest}
    (hp : s.pendingRequests.lookup id = some pending) :
    Accounts { s.clearTimeouts [pending.timer] with
      pendingRequests := erase id s.pendingRequests } (id :: hand) dispatched := by
  have hperm := perm_cons_erase h.nodup_pending hp
  have harmed : s.timers.Perm ([(pending.timer, .relayTimeout id)] ++
      (pendingTimers (erase id s.pendingRequests) ++ queueTimers s.reconnectQueues)) :=
    h.armed.trans ((hperm.map _).append_right _)
  obtain ⟨hrest, htimers, hfresh⟩ := h.clearTimeouts harmed
  refine ⟨fun id' => ?_, h.nodup, h.queues, hrest, htimers, hfresh⟩
  have := h.count id'
  have hcount := (hperm.map Prod.fst).count_eq id'
  simp only [keys, RelayState.clearTimeouts, List.map_cons, List.count_cons] at this hcount ⊢
  omega

/-- The requests of a queue come in hand. -/
theorem takeQueue (h : Accounts s hand dispatched) {subdomain : String} {queue : ReconnectQueue}
    (hq : s.reconnectQueues.lookup subdomain = some queue) :
    Accounts { s.clearTimeouts [queue.graceTimer] with
      reconnectQueues := erase subdomain s.reconnectQueues }
      (queue.entries.map QueuedRelay.requestId ++ hand) dispatched := by
  have hperm := perm_cons_erase h.queues hq
  have harmed : s.timers.Perm ([(queue.graceTimer, .reconnectGrace subdomain)] ++
      (pendingTimers s.pendingRequests ++ queueTimers (erase subdomain s.reconnectQueues))) :=
    h.armed.trans (((hperm.map _).append_left _).trans List.perm_middle)
  obtain ⟨hrest, htimers, hfresh⟩ := h.clearTimeouts harmed
  refine ⟨fun id => ?_, h.nodup, nodup_keys_erase h.queues, hrest, htimers, hfresh⟩
  have := h.count id
  have hcount := (hperm.flatMap_right fun q => q.2.entries.map QueuedRelay.requestId).count_eq id
  simp only [queuedIds, RelayState.clearTimeouts, List.flatMap_cons, List.count_append] at this hcount ⊢
  omega

/-- The pending requests of a subdomain come in hand. -/
theorem takeSubdomain (h : Accounts s hand dispatched) (subdomain : String) :
    let drained := s.pendingRequests.filter fun p => p.2.subdomain = subdomain
    Accounts { s.clearTimeouts (drained.map fun p => p.2.timer) with
      pendingRequests := s.pendingRequests.filter fun p => p.2.subdomain ≠ subdomain }
      (keys drained ++ hand) dispatched := by
  intro drained
  have hperm : s.pendingRequests.Perm
      (drained ++ s.pendingRequests.filter fun p => p.2.subdomain ≠ subdomain) := by
    have hsplit := List.filter_append_perm (fun p => decide (p.2.subdomain = subdomain))
      s.pendingRequests
    simpa using hsplit.symm
  have harmed := h.armed.trans ((hperm.map fun p => (p.2.timer, TimerTask.relayTimeout p.1)).append_right _)
  rw [List.map_append, List.append_assoc] at harmed
  obtain ⟨hrest, htimers, hfresh⟩ := h.clearTimeouts harmed
  have hkeys : keys (drained.map fun p => (p.2.timer, TimerTask.relayTimeout p.1)) =
      drained.map fun p => p.2.timer := by
    rw [keys, List.map_map]
    rfl
  rw [hkeys] at hrest htimers hfresh
  refine ⟨fun id => ?_, h.nodup, h.queues, hrest, htimers, hfresh⟩
  have := h.count id
  have hcount := (hperm.map Prod.fst).count_eq id
  simp only [keys, RelayState.clearTimeouts, List.map_append, List.count_append] at this hcount ⊢
  omega

/-- Requests in hand are queued, with a new grace timer. -/
theorem putQueue (subdomain : String) (entries : List QueuedRelay)
    (h : Accounts { s with reconnectQueues := erase subdomain s.reconnectQueues }
      (entries.map QueuedRelay.requestId ++ hand) dispatched)
    (hq : (keys s.reconnectQueues).Nodup) :
    Accounts { (s.setTimeout (.reconnectGrace subdomain)).2 with
      reconnectQueues := set subdomain ⟨entries, s.nextTimer⟩ s.reconnectQueues } hand dispatched := by
  obtain ⟨htimers, hfresh⟩ := h.setTimeout (.reconnectGrace subdomain)
  have hperm := perm_set subdomain (⟨entries, s.nextTimer⟩ : ReconnectQueue) hq
  refine ⟨fun id => ?_, h.nodup, nodup_keys_set hq, ?_, htimers, hfresh⟩
  · have := h.count id
    have hcount := (hperm.flatMap_right fun q => q.2.entries.map QueuedRelay.requestId).count_eq id
    simp only [queuedIds, RelayState.setTimeout, List.flatMap_cons, List.count_append] at this hcount ⊢
    omega
  · have hqueues : (queueTimers (set subdomain ⟨entries, s.nextTimer⟩ s.reconnectQueues)).Perm
        ((s.nextTimer, .reconnectGrace subdomain) ::
          queueTimers (erase subdomain s.reconnectQueues)) := hperm.map _
    exact (h.armed.cons _).trans (List.perm_middle.symm.trans (hqueues.symm.append_left _))

/-! ## The operations -/

theorem drainToReconnectQueue (h : Accounts s hand dispatched) (subdomain : String) :
    Accounts (s.drainToReconnectQueue subdomain) hand dispatched := by
  -- The queue that was there is taken, then the pending requests; together they are put.
  let drained := s.pendingRequests.filter fun p => p.2.subdomain = subdomain
  let drainedEntries : List QueuedRelay := drained.map fun p => ⟨p.1, p.2.frame⟩
  have hids : drainedEntries.map QueuedRelay.requestId = keys drained := by
    rw [List.map_map]
    rfl
  unfold RelayState.drainToReconnectQueue
  cases hq : s.reconnectQueues.lookup subdomain with
  | none =>
    have hsame : Accounts (s.clearTimeouts []) hand dispatched :=
      h.of_same rfl rfl rfl (by simp [RelayState.clearTimeouts]) rfl
    have htaken := hsame.takeSubdomain subdomain
    refine putQueue subdomain ([] ++ drainedEntries) ?_ h.queues
    rw [List.nil_append, hids]
    exact htaken.of_same rfl rfl (erase_of_not_mem (lookup_eq_none_iff.1 hq)) rfl rfl
  | some queue =>
    have htaken := (h.takeQueue hq).takeSubdomain subdomain
    refine putQueue subdomain (queue.entries ++ drainedEntries) ?_ h.queues
    rw [List.map_append, hids]
    refine htaken.of_perm ?_
    rw [← List.append_assoc]
    exact List.perm_append_comm.append_right _

theorem handleResponse (h : Accounts s hand dispatched) (requestId : String) (result : RelayResult) :
    Accounts (s.handleResponse requestId result) hand dispatched := by
  unfold RelayState.handleResponse
  split
  · exact h
  · rename_i pending hp
    exact settle [(requestId, .resolve result)] (h.takePending hp)

theorem fire (h : Accounts s hand dispatched) (opts : RelayOptions) (timer : ℕ) :
    Accounts (s.fire opts timer) hand dispatched := by
  unfold RelayState.fire
  split
  · exact h
  · rename_i task htask
    have hmem := h.armed.mem_iff.1 (mem_of_lookup htask)
    rcases List.mem_append.1 hmem with hmem | hmem
    · obtain ⟨⟨id, pending⟩, hp, htimer⟩ := List.mem_map.1 hmem
      simp only [Prod.mk.injEq] at htimer
      obtain ⟨rfl, rfl⟩ := htimer
      exact settle [(id, _)] (h.takePending ((mem_iff_lookup h.nodup_pending).1 hp))
    · obtain ⟨⟨subdomain, queue⟩, hq, htimer⟩ := List.mem_map.1 hmem
      simp only [Prod.mk.injEq] at htimer
      obtain ⟨rfl, rfl⟩ := htimer
      have hlookup := (mem_iff_lookup h.queues).1 hq
      have htaken := h.takeQueue hlookup
      simp only [RelayState.clearTimeouts, hlookup, Option.map_some, Option.getD_some]
      refine settle (s := { s.clearTimeouts [queue.graceTimer] with
        reconnectQueues := erase subdomain s.reconnectQueues }) (queue.entries.map fun e =>
          (e.requestId, .reject ("subscriber for " ++ subdomain ++ " did not reconnect in time"))) ?_
      rw [keys, List.map_map]
      exact htaken

/-- A flush where no `send` throws, but perhaps the last. -/
theorem flushEntries {entries : List QueuedRelay}
    (h : Accounts s (entries.map QueuedRelay.requestId ++ hand) dispatched) (subdomain : String)
    (ws : SocketId) {sendThrows : String → Bool}
    (hsend : ∀ e ∈ entries.dropLast, sendThrows e.requestId = false) :
    Accounts (RelayState.flushEntries subdomain ws sendThrows s entries).1 hand dispatched := by
  induction entries generalizing s with
  | nil => exact h
  | cons entry entries ih =>
    have hsent := sendRequest h subdomain ws sendThrows
    rw [RelayState.flushEntries]
    cases entries with
    | nil => split_ifs <;> exact hsent
    | cons next entries =>
      rw [List.dropLast_cons_cons, List.forall_mem_cons] at hsend
      have hreturns : (s.sendRequest subdomain ws sendThrows entry).2 = true := by
        unfold RelayState.sendRequest
        dsimp only
        rw [if_neg (by simp [hsend.1])]
      rw [if_pos hreturns]
      exact ih hsent hsend.2

/-- The sends of a flush return, but perhaps the last. -/
def FlushReturns (s : RelayState) (subdomain : String) (sendThrows : String → Bool) : Prop :=
  ∀ queue ∈ s.reconnectQueues.lookup subdomain, ∀ e ∈ queue.entries.dropLast,
    sendThrows e.requestId = false

theorem flushReconnectQueue (h : Accounts s hand dispatched) {subdomain : String} (ws : SocketId)
    {sendThrows : String → Bool} (hsend : FlushReturns s subdomain sendThrows) :
    Accounts (s.flushReconnectQueue subdomain ws sendThrows).1 hand dispatched := by
  unfold RelayState.flushReconnectQueue
  split
  · exact h
  · rename_i queue hq
    exact flushEntries (h.takeQueue hq) subdomain ws (hsend queue hq)

/-- The `send` of a dispatch returns, when it comes to one. -/
def DispatchReturns (s : RelayState) (subdomain requestId : String) (sendThrows : String → Bool) :
    Prop :=
  ((s.subscribers.lookup subdomain).filter s.isOpen).isSome → sendThrows requestId = false

theorem dispatchRequest (h : Accounts s hand dispatched) {requestId : String}
    (hnew : requestId ∉ dispatched) {subdomain : String} (frame : String)
    {sendThrows : String → Bool} (hsend : DispatchReturns s subdomain requestId sendThrows) :
    Accounts (s.dispatchRequest subdomain requestId frame sendThrows) hand
      (dispatched ++ [requestId]) := by
  have hhand := h.dispatch hnew
  unfold RelayState.dispatchRequest
  split
  · split
    · exact settle [(requestId, _)] hhand
    · rename_i queue hq
      have hperm := perm_cons_erase h.queues hq
      have hset := perm_set subdomain
        { queue with entries := queue.entries ++ [⟨requestId, frame⟩] } h.queues
      refine ⟨fun id => ?_, hhand.nodup, nodup_keys_set h.queues, ?_, h.timers, h.fresh⟩
      · have := hhand.count id
        have hcount := (hperm.flatMap_right fun q => q.2.entries.map QueuedRelay.requestId).count_eq id
        have hcount' := (hset.flatMap_right fun q => q.2.entries.map QueuedRelay.requestId).count_eq id
        simp only [queuedIds, List.flatMap_cons, List.count_append, List.count_cons, List.map_append,
          List.map_cons, List.map_nil, List.count_nil] at this hcount hcount' ⊢
        omega
      · have hqueues : (queueTimers s.reconnectQueues).Perm (queueTimers (set subdomain
            { queue with entries := queue.entries ++ [⟨requestId, frame⟩] } s.reconnectQueues)) :=
          (hperm.map _).trans (hset.map fun q => (q.2.graceTimer, TimerTask.reconnectGrace q.1)).symm
        exact h.armed.trans (hqueues.append_left _)
  · rename_i ws hws
    have hreturns : (s.sendRequest subdomain ws sendThrows ⟨requestId, frame⟩).2 = true := by
      unfold RelayState.sendRequest
      dsimp only
      rw [if_neg (by simp [hsend (hws ▸ rfl)])]
    rw [if_pos hreturns]
    exact sendRequest hhand subdomain ws sendThrows

theorem handleSubscriptionEvent (h : Accounts s hand dispatched) (subId : String) (message : Json) :
    Accounts (s.handleSubscriptionEvent subId message) hand dispatched := by
  unfold RelayState.handleSubscriptionEvent
  split
  · exact h
  · split_ifs
    · exact h.of_same rfl rfl rfl rfl rfl
    · exact h

theorem handleSubscriptionClose (h : Accounts s hand dispatched) (subId : String) (code : ℤ)
    (reason : Option String) : Accounts (s.handleSubscriptionClose subId code reason) hand dispatched := by
  unfold RelayState.handleSubscriptionClose
  split
  · exact h
  · dsimp only
    split_ifs <;> exact h.of_same rfl rfl rfl rfl rfl

end Accounts

/-! ## Where a request waits -/

/-- Where a request waits. -/
inductive Place
  | pending
  | queue (subdomain : String)

/-- The place has the request. -/
def Holds (s : RelayState) (id : String) : Place → Prop
  | .pending => id ∈ keys s.pendingRequests
  | .queue subdomain => ∃ queue, s.reconnectQueues.lookup subdomain = some queue ∧
      id ∈ queue.entries.map QueuedRelay.requestId

/-- The timer of the place is armed. -/
def Armed (s : RelayState) (id : String) : Place → Prop
  | .pending => ∃ pending, s.pendingRequests.lookup id = some pending ∧
      s.timers.lookup pending.timer = some (.relayTimeout id)
  | .queue subdomain => ∃ queue, s.reconnectQueues.lookup subdomain = some queue ∧
      s.timers.lookup queue.graceTimer = some (.reconnectGrace subdomain)

/-- The request waits in one place, whose timer is armed. -/
def Waits (s : RelayState) (id : String) : Prop :=
  ∃ place, s.Holds id place ∧ s.Armed id place ∧ ∀ place', s.Holds id place' → place' = place

namespace Accounts

theorem mem_queuedIds_of_holds {id subdomain : String} (h : s.Holds id (.queue subdomain)) :
    id ∈ queuedIds s.reconnectQueues := by
  obtain ⟨queue, hq, hid⟩ := h
  exact List.mem_flatMap.2 ⟨_, mem_of_lookup hq, hid⟩

/-- A place that has a request is armed. -/
theorem armed_of_holds (h : Accounts s hand dispatched) {id : String} {place : Place}
    (hplace : s.Holds id place) : s.Armed id place := by
  have hlookup : ∀ t ∈ pendingTimers s.pendingRequests ++ queueTimers s.reconnectQueues,
      s.timers.lookup t.1 = some t.2 := fun t ht =>
    (mem_iff_lookup h.timers).1 (h.armed.mem_iff.2 ht)
  cases place with
  | pending =>
    obtain ⟨pending, hp⟩ := mem_keys.1 hplace
    refine ⟨pending, (mem_iff_lookup h.nodup_pending).1 hp, ?_⟩
    exact hlookup _ (List.mem_append_left _ (List.mem_map.2 ⟨_, hp, rfl⟩))
  | queue subdomain =>
    obtain ⟨queue, hq, _⟩ := hplace
    refine ⟨queue, hq, ?_⟩
    exact hlookup _ (List.mem_append_right _ (List.mem_map.2 ⟨_, mem_of_lookup hq, rfl⟩))

/-- One request is not in two queues. -/
theorem queue_unique (h : Accounts s hand dispatched) {id subdomain subdomain' : String}
    (h₁ : s.Holds id (.queue subdomain)) (h₂ : s.Holds id (.queue subdomain')) :
    subdomain' = subdomain := by
  by_contra hne
  obtain ⟨queue, hq, hid⟩ := h₁
  obtain ⟨queue', hq', hid'⟩ := h₂
  have hperm := perm_cons_erase h.queues hq
  have hleft : id ∈ queuedIds (erase subdomain s.reconnectQueues) := by
    refine List.mem_flatMap.2 ⟨(subdomain', queue'), mem_of_lookup ?_, hid'⟩
    rw [lookup_erase, if_neg hne, hq']
  have hcount := (hperm.flatMap_right fun q => q.2.entries.map QueuedRelay.requestId).count_eq id
  rw [List.flatMap_cons, List.count_append] at hcount
  have hle := h.count_le id
  have hpos : 0 < ((subdomain, queue).2.entries.map QueuedRelay.requestId).count id :=
    List.count_pos_iff.2 hid
  have hpos' := List.count_pos_iff.2 hleft
  rw [queuedIds] at hle hpos'
  omega

/-- With nothing in hand, a dispatched request that is not settled waits. -/
theorem waits (h : Accounts s [] dispatched) {id : String} (hid : id ∈ dispatched)
    (hunsettled : id ∉ keys s.settled) : s.Waits id := by
  have hcount := h.count id
  rw [List.count_eq_one_of_mem h.nodup hid, List.count_eq_zero_of_not_mem hunsettled,
    List.count_nil] at hcount
  by_cases hpending : id ∈ keys s.pendingRequests
  · have hholds : s.Holds id .pending := hpending
    refine ⟨.pending, hholds, h.armed_of_holds hholds, fun place' hplace' => ?_⟩
    cases place' with
    | pending => rfl
    | queue subdomain =>
      have hpos := List.count_pos_iff.2 hpending
      have hpos' := List.count_pos_iff.2 (mem_queuedIds_of_holds hplace')
      omega
  · have hzero := List.count_eq_zero_of_not_mem hpending
    have hqueued : id ∈ queuedIds s.reconnectQueues := List.count_pos_iff.1 (by omega)
    obtain ⟨⟨subdomain, queue⟩, hq, hmem⟩ := List.mem_flatMap.1 hqueued
    have hholds : s.Holds id (.queue subdomain) := ⟨queue, (mem_iff_lookup h.queues).1 hq, hmem⟩
    refine ⟨.queue subdomain, hholds, h.armed_of_holds hholds, fun place' hplace' => ?_⟩
    cases place' with
    | pending => exact absurd hplace' hpending
    | queue subdomain' => rw [h.queue_unique hholds hplace']

/-- No request is settled twice. -/
theorem nodup_settled (h : Accounts s hand dispatched) : (keys s.settled).Nodup :=
  List.nodup_iff_count_le_one.2 fun id => by
    have := h.count_le id
    omega

end Accounts

end RelayState

/-! ## Runs -/

namespace Server

variable {s : Server}

/-- The sends that the event makes return, but perhaps the last of a flush. -/
def SendsReturn (s : Server) : Event → Prop
  | .verified ws result sendThrows => ∀ clientDid, s.clients.lookup ws = some clientDid →
      result = .ok clientDid →
      RelayState.Accounts.FlushReturns s.relay (didToSubdomain clientDid) sendThrows
  | .dispatch subdomain requestId _ sendThrows =>
      RelayState.Accounts.DispatchReturns s.relay subdomain requestId sendThrows
  | _ => True

theorem accounts_step (h : s.relay.Accounts [] s.dispatched) {e : Event} (hp : s.Possible e)
    (hok : s.SendsReturn e) : (s.step e).relay.Accounts [] (s.step e).dispatched := by
  have hclosed : ∀ ws, (s.closeSocket ws).relay.Accounts [] s.dispatched := fun _ =>
    h.of_same rfl rfl rfl rfl rfl
  have honClose : ∀ (s' : Server) (ws : SocketId), s'.relay.Accounts [] s'.dispatched →
      (s'.onClose ws).relay.Accounts [] (s'.onClose ws).dispatched := fun s' ws h' => by
    unfold onClose
    split
    · exact h'
    · rename_i subdomain _
      have herased : RelayState.Accounts { s'.relay with
          subscribers := erase subdomain s'.relay.subscribers } [] s'.dispatched :=
        h'.of_same rfl rfl rfl rfl rfl
      exact (herased.drainToReconnectQueue subdomain).of_same rfl rfl rfl rfl rfl
  cases e with
  | opened ws clientDid wellFormed =>
    rw [step, onOpen]
    split_ifs
    · exact h
    · exact hclosed ws
  | verified ws result sendThrows =>
    rcases s.onVerified_cases ws result sendThrows with ⟨clientDid, hws, hres, he⟩ | ⟨_, he | he⟩
    · rw [step, he]
      have hset : RelayState.Accounts { s.relay with
          subscribers := set (didToSubdomain clientDid) ws s.relay.subscribers } [] s.dispatched :=
        h.of_same rfl rfl rfl rfl rfl
      have hflushed := hset.flushReconnectQueue ws (hok clientDid hws hres)
      unfold register
      dsimp only
      split_ifs
      · exact hflushed.of_same rfl rfl rfl rfl rfl
      · exact hflushed
    · rw [step, he]
      exact h
    · rw [step, he]
      exact hclosed ws
  | message ws frame =>
    rw [step]
    unfold onMessage
    split
    · split
      · exact h
      · exact h.handleResponse _ _
    · split
      · exact h
      · exact h.handleSubscriptionEvent _ _
    · split
      · exact h
      · exact h.handleSubscriptionClose _ _ _
    · exact h
    · exact h
  | close ws => exact honClose _ ws (hclosed ws)
  | error ws => exact honClose _ ws h
  | closing ws => exact hclosed ws
  | dispatch subdomain requestId frame sendThrows => exact h.dispatchRequest hp frame hok
  | timer timer => exact h.fire s.opts timer
  | callerOpen caller subdomain subscriptionId nsid params =>
    rw [step, onCallerOpen]
    split
    · exact hclosed caller
    · exact h.of_same rfl rfl rfl rfl rfl
  | callerClose subscriptionId =>
    rw [step, onCallerClose]
    split
    · exact h
    · dsimp only
      split <;> exact h.of_same rfl rfl rfl rfl rfl
  | callerError subscriptionId => exact h.of_same rfl rfl rfl rfl rfl

/-- No request is settled twice, and one that is not settled waits in one place. -/
theorem no_request_lost (h : Reachable SendsReturn s) :
    (keys s.relay.settled).Nodup ∧
      ∀ id ∈ s.dispatched, id ∉ keys s.relay.settled → s.relay.Waits id := by
  have hinv : s.relay.Accounts [] s.dispatched :=
    h.induction (fun _ _ => ⟨fun _ => rfl, .nil, .nil, .nil, .nil, fun _ ht => by cases ht⟩)
      fun _ _ hs hp hok => accounts_step hs hp hok
  exact ⟨hinv.nodup_settled, fun _ hid hunsettled => hinv.waits hid hunsettled⟩

/-- A subscriber that left, and the requests that came before it was back. -/
def queuedServer : Server :=
  [Event.opened 1 "did:key:a" true, .verified 1 (.ok "did:key:a") fun _ => false, .close 1,
    .dispatch "did-key-a" "first" "frame 1" fun _ => false,
    .dispatch "did-key-a" "second" "frame 2" fun _ => false,
    .opened 2 "did:key:a" true].foldl step (new ⟨30000, 10000⟩ "relay.test")

theorem reachable_queuedServer : Reachable SendsReturn queuedServer := by
  have hnew : Reachable SendsReturn (new ⟨30000, 10000⟩ "relay.test") := .new _ _
  have hopened := hnew.step (.opened 1 "did:key:a" true)
    (show (1 : SocketId) ∉ [] by decide) trivial
  have hverified := hopened.step (.verified 1 (.ok "did:key:a") fun _ => false)
    (show (1 : SocketId) ∈ [1] by decide) fun _ _ _ _ _ _ _ => rfl
  have hclosed := hverified.step (.close 1) trivial trivial
  have hfirst := hclosed.step (.dispatch "did-key-a" "first" "frame 1" fun _ => false)
    (show "first" ∉ [] by decide) fun _ => rfl
  have hsecond := hfirst.step (.dispatch "did-key-a" "second" "frame 2" fun _ => false)
    (show "second" ∉ ["first"] by decide) fun _ => rfl
  exact hsecond.step (.opened 2 "did:key:a" true)
    (show (2 : SocketId) ∉ keys [(1, "did:key:a")] by decide) trivial

theorem no_request_lost_queuedServer :
    (keys queuedServer.relay.settled).Nodup ∧
      ∀ id ∈ queuedServer.dispatched, id ∉ keys queuedServer.relay.settled →
        queuedServer.relay.Waits id :=
  no_request_lost reachable_queuedServer

/-- The first `send` of a flush throws: the requests behind it are in no place any more. -/
theorem no_request_lost_flush : ¬ ∀ s : Server, Reachable (fun _ _ => True) s →
    (keys s.relay.settled).Nodup ∧
      ∀ id ∈ s.dispatched, id ∉ keys s.relay.settled → s.relay.Waits id := by
  intro h
  have hqueued : Reachable (fun _ _ => True) queuedServer := reachable_queuedServer.imp
  have hflushed := hqueued.step (.verified 2 (.ok "did:key:a") fun id => id = "first")
    (show (2 : SocketId) ∈ [2] by decide) trivial
  obtain ⟨place, hplace, _⟩ := (h _ hflushed).2 "second" (by decide +kernel) (by decide +kernel)
  cases place with
  | pending =>
    revert hplace
    unfold RelayState.Holds
    decide +kernel
  | queue subdomain =>
    obtain ⟨queue, hq, _⟩ := hplace
    have hnone : keys (queuedServer.step (.verified 2 (.ok "did:key:a") fun id =>
        id = "first")).relay.reconnectQueues = [] := by decide +kernel
    have hkey := mem_keys.2 ⟨queue, mem_of_lookup hq⟩
    rw [hnone] at hkey
    cases hkey

end Server

end ComputeContract
