import ComputeContract.Relay.Server

/-!
# The table of subscribers

The entry of a subdomain should be the last socket that was registered for it and has not
closed. The handlers of `close` and `error` drop the entry of their subdomain, whichever
socket it holds.

* `registration_table`: the table is right, and other sockets leave it alone, as long as
  only the registered socket of a subdomain closes, with no other one of it left open.
-/

namespace ComputeContract

open AssocList

/-! ## What leaves the table alone -/

namespace RelayState

variable {s : RelayState}

@[simp] theorem subscribers_sendRequest (subdomain : String) (ws : SocketId)
    (sendThrows : String → Bool) (request : QueuedRelay) :
    (s.sendRequest subdomain ws sendThrows request).1.subscribers = s.subscribers := by
  unfold sendRequest
  dsimp only
  split_ifs <;> rfl

@[simp] theorem subscribers_flushEntries (subdomain : String) (ws : SocketId)
    (sendThrows : String → Bool) (entries : List QueuedRelay) :
    (flushEntries subdomain ws sendThrows s entries).1.subscribers = s.subscribers := by
  induction entries generalizing s with
  | nil => rfl
  | cons entry entries ih =>
    rw [flushEntries]
    split_ifs
    · rw [ih, subscribers_sendRequest]
    · exact subscribers_sendRequest ..

@[simp] theorem subscribers_flushReconnectQueue (subdomain : String) (ws : SocketId)
    (sendThrows : String → Bool) :
    (s.flushReconnectQueue subdomain ws sendThrows).1.subscribers = s.subscribers := by
  unfold flushReconnectQueue
  split
  · rfl
  · rw [subscribers_flushEntries]
    rfl

@[simp] theorem subscribers_dispatchRequest (subdomain requestId frame : String)
    (sendThrows : String → Bool) :
    (s.dispatchRequest subdomain requestId frame sendThrows).subscribers = s.subscribers := by
  unfold dispatchRequest
  split
  · split <;> rfl
  · dsimp only
    split_ifs
    · exact subscribers_sendRequest ..
    · exact subscribers_sendRequest ..

@[simp] theorem subscribers_handleResponse (requestId : String) (result : RelayResult) :
    (s.handleResponse requestId result).subscribers = s.subscribers := by
  unfold handleResponse
  split <;> rfl

@[simp] theorem subscribers_handleSubscriptionEvent (subId : String) (message : Json) :
    (s.handleSubscriptionEvent subId message).subscribers = s.subscribers := by
  unfold handleSubscriptionEvent
  split
  · rfl
  · split_ifs <;> rfl

@[simp] theorem subscribers_handleSubscriptionClose (subId : String) (code : ℤ)
    (reason : Option String) :
    (s.handleSubscriptionClose subId code reason).subscribers = s.subscribers := by
  unfold handleSubscriptionClose
  split
  · rfl
  · dsimp only
    split_ifs <;> rfl

@[simp] theorem subscribers_fire (opts : RelayOptions) (timer : ℕ) :
    (s.fire opts timer).subscribers = s.subscribers := by
  unfold fire
  split
  · rfl
  · split <;> rfl

end RelayState

namespace Server

variable {s : Server}

/-! ## The table -/

/-- The last socket that was registered for a subdomain and has not closed. -/
def expected (s : Server) (subdomain : String) : Option SocketId :=
  ((s.registrations.filter fun r => r.1 = subdomain ∧ r.2 ∉ s.gone).getLast?).map Prod.snd

/-- An event on a socket that is not the registered one of its subdomain, and does not
    become it, leaves the entries, the queues and the subscriptions unchanged. -/
def Undisturbed (s : Server) (e : Event) : Prop :=
  (∀ ws, (∃ clientDid wellFormed, e = .opened ws clientDid wellFormed) ∨
      (∃ result sendThrows, e = .verified ws result sendThrows ∧ ¬ s.Succeeds ws result) ∨
      ((e = .close ws ∨ e = .error ws) ∧
        ∀ subdomain ∈ s.subdomainOf ws, s.relay.subscribers.lookup subdomain ≠ some ws) →
    (s.step e).relay.subscribers = s.relay.subscribers ∧
      (s.step e).relay.reconnectQueues = s.relay.reconnectQueues ∧
      (s.step e).relay.activeSubscriptions = s.relay.activeSubscriptions)

/-- The socket is the registered one of its subdomain, and no other one that was
    registered for it is left open. -/
def ClosesAlone (s : Server) (ws : SocketId) : Prop :=
  ∃ subdomain, s.subdomainOf ws = some subdomain ∧
    s.relay.subscribers.lookup subdomain = some ws ∧
    ∀ ws', (subdomain, ws') ∈ s.registrations → ws' ≠ ws → ws' ∈ s.gone

/-- Only the registered socket of a subdomain closes, and a socket that has closed is not
    registered any more. -/
def InOrder (s : Server) : Event → Prop
  | .close ws | .error ws => s.ClosesAlone ws
  | .verified ws result _ => s.Succeeds ws result → ws ∉ s.gone
  | _ => True

/-- The invariant: the entries are the expected ones, and a socket was registered for the
    subdomain of its did. -/
structure TableInv (s : Server) : Prop where
  table : ∀ subdomain, s.relay.subscribers.lookup subdomain = s.expected subdomain
  subdomain_eq : ∀ r ∈ s.registrations, s.subdomainOf r.2 = some r.1

/-- A step that registers nothing and closes nothing. -/
theorem TableInv.of_same {s' : Server} (h : TableInv s)
    (hsubs : s'.relay.subscribers = s.relay.subscribers) (hregs : s'.registrations = s.registrations)
    (hgone : s'.gone = s.gone) (hclients : s'.clients = s.clients) : TableInv s' := by
  refine ⟨fun subdomain => ?_, fun r hr => ?_⟩
  · rw [hsubs, h.table, expected, expected, hregs, hgone]
  · rw [subdomainOf, hclients]
    exact h.subdomain_eq r (hregs ▸ hr)

theorem TableInv.onOpen (h : TableInv s) {ws : SocketId} (hnew : ws ∉ keys s.clients)
    (clientDid : String) (wellFormed : Bool) : TableInv (s.onOpen ws clientDid wellFormed) := by
  have hclients : TableInv { s with clients := (ws, clientDid) :: s.clients } := by
    refine ⟨h.table, fun r hr => ?_⟩
    have hold := h.subdomain_eq r hr
    have hne : r.2 ≠ ws := by
      rintro rfl
      rw [subdomainOf, lookup_eq_none_iff.2 hnew] at hold
      cases hold
    rw [subdomainOf] at hold ⊢
    rwa [lookup_cons, if_neg hne]
  rw [Server.onOpen]
  split_ifs
  · exact hclients.of_same rfl rfl rfl rfl
  · exact hclients.of_same rfl rfl rfl rfl

/-- The socket that is registered last is the expected one. -/
theorem TableInv.register (h : TableInv s) {ws : SocketId} {clientDid : String}
    (hws : s.clients.lookup ws = some clientDid) (hgone : ws ∉ s.gone)
    (sendThrows : String → Bool) :
    TableInv (s.register (didToSubdomain clientDid) ws sendThrows) := by
  have hsubs : (s.register (didToSubdomain clientDid) ws sendThrows).relay.subscribers =
      set (didToSubdomain clientDid) ws s.relay.subscribers := by
    rw [Server.register]
    dsimp only
    split_ifs <;> exact RelayState.subscribers_flushReconnectQueue ..
  refine ⟨fun subdomain => ?_, fun r hr => ?_⟩
  · rw [hsubs, lookup_set, h.table, expected, expected, Server.register]
    dsimp only
    rw [List.filter_append]
    by_cases hd : subdomain = didToSubdomain clientDid
    · simp [hd, hgone]
    · simp [hd, Ne.symm hd]
  · rw [Server.register] at hr
    rcases List.mem_append.1 hr with hr | hr
    · exact h.subdomain_eq r hr
    · cases List.mem_singleton.1 hr
      change (s.clients.lookup ws).map didToSubdomain = _
      rw [hws]
      rfl

/-- The entry of the socket that closes is dropped, and none is expected. -/
theorem TableInv.onClose (h : TableInv s) {ws : SocketId} (hws : s.ClosesAlone ws) :
    TableInv (s.onClose ws) := by
  obtain ⟨subdomain, hsub, _, hothers⟩ := hws
  rw [Server.onClose, hsub]
  refine ⟨fun d => ?_, h.subdomain_eq⟩
  change (erase subdomain s.relay.subscribers).lookup d = _
  rw [lookup_erase, h.table, expected, expected]
  dsimp only
  by_cases hd : d = subdomain
  · -- All that were registered for it are gone.
    have hnil : (s.registrations.filter fun r => r.1 = d ∧ r.2 ∉ ws :: s.gone) = [] := by
      refine List.filter_eq_nil_iff.2 fun r hr hkeep => ?_
      simp only [decide_eq_true_eq, List.mem_cons, not_or] at hkeep
      obtain ⟨hr₁, hne, hopen⟩ := hkeep
      exact hopen (hothers r.2 (by rw [← hd, ← hr₁]; exact hr) hne)
    rw [if_pos hd, hnil]
    rfl
  · have hsame : (s.registrations.filter fun r => r.1 = d ∧ r.2 ∉ ws :: s.gone) =
        s.registrations.filter fun r => r.1 = d ∧ r.2 ∉ s.gone := by
      refine List.filter_congr fun r hr => ?_
      have hne : r.1 = d → r.2 ≠ ws := by
        rintro rfl rfl
        have hr := h.subdomain_eq r hr
        exact hd (Option.some.inj (hr.symm.trans hsub))
      simp only [List.mem_cons, not_or, decide_eq_decide]
      exact and_congr_right fun hr₁ => and_iff_right (hne hr₁)
    rw [if_neg hd, hsame]

theorem tableInv_step (h : TableInv s) {e : Event} (hp : s.Possible e) (hok : s.InOrder e) :
    TableInv (s.step e) := by
  cases e with
  | opened ws clientDid wellFormed => exact h.onOpen hp clientDid wellFormed
  | verified ws result sendThrows =>
    have hs : TableInv { s with verifying := s.verifying.filter (· ≠ ws) } :=
      h.of_same rfl rfl rfl rfl
    rcases s.onVerified_cases ws result sendThrows with ⟨clientDid, hws, hres, he⟩ | ⟨_, he | he⟩
    · rw [step, he]
      exact hs.register hws (hok ⟨clientDid, hws, hres⟩) sendThrows
    · rw [step, he]
      exact hs
    · rw [step, he]
      exact hs.of_same rfl rfl rfl rfl
  | message ws frame =>
    rw [step]
    unfold onMessage
    split
    · split
      · exact h
      · exact h.of_same (RelayState.subscribers_handleResponse ..) rfl rfl rfl
    · split
      · exact h
      · exact h.of_same (RelayState.subscribers_handleSubscriptionEvent ..) rfl rfl rfl
    · split
      · exact h
      · exact h.of_same (RelayState.subscribers_handleSubscriptionClose ..) rfl rfl rfl
    · exact h
    · exact h
  | close ws =>
    have hs : TableInv (s.closeSocket ws) := h.of_same rfl rfl rfl rfl
    exact hs.onClose hok
  | error ws => exact h.onClose hok
  | closing ws => exact h.of_same rfl rfl rfl rfl
  | dispatch subdomain requestId frame sendThrows =>
    exact h.of_same (RelayState.subscribers_dispatchRequest ..) rfl rfl rfl
  | timer timer => exact h.of_same (RelayState.subscribers_fire ..) rfl rfl rfl
  | callerOpen caller subdomain subscriptionId nsid params =>
    rw [step, onCallerOpen]
    split <;> exact h.of_same rfl rfl rfl rfl
  | callerClose subscriptionId =>
    rw [step, onCallerClose]
    split
    · exact h
    · dsimp only
      split <;> exact h.of_same rfl rfl rfl rfl
  | callerError subscriptionId => exact h.of_same rfl rfl rfl rfl

/-- Events on other sockets, when only the registered one closes. -/
theorem undisturbed (s : Server) {e : Event} (hok : s.InOrder e) : s.Undisturbed e := by
  rintro ws (⟨clientDid, wellFormed, rfl⟩ | ⟨result, sendThrows, rfl, hfail⟩ | ⟨hclose, hother⟩)
  · rw [step, onOpen]
    split_ifs <;> exact ⟨rfl, rfl, rfl⟩
  · rcases s.onVerified_cases ws result sendThrows with ⟨clientDid, hws, hres, _⟩ | ⟨_, he | he⟩
    · exact absurd ⟨clientDid, hws, hres⟩ hfail
    · rw [step, he]
      exact ⟨rfl, rfl, rfl⟩
    · rw [step, he]
      exact ⟨rfl, rfl, rfl⟩
  · have halone : s.ClosesAlone ws := by
      rcases hclose with rfl | rfl
      · exact hok
      · exact hok
    obtain ⟨subdomain, hsub, hentry, _⟩ := halone
    exact absurd hentry (hother subdomain hsub)

/-- The table of subscribers in every state reached, as long as only the registered
    sockets close. -/
theorem registration_table (h : Reachable InOrder s) :
    (∀ subdomain, s.relay.subscribers.lookup subdomain = s.expected subdomain) ∧
      ∀ e, s.InOrder e → s.Undisturbed e := by
  have hinv : TableInv s := h.induction (fun _ _ => ⟨fun _ => rfl, by simp [new]⟩)
    fun _ _ hs hp hok => tableInv_step hs hp hok
  exact ⟨hinv.table, fun _ hok => undisturbed s hok⟩

/-- A subscriber that is registered. -/
def sampleServer : Server :=
  ((new ⟨30000, 10000⟩ "relay.test").step (.opened 1 "did:key:a" true)).step
    (.verified 1 (.ok "did:key:a") fun _ => false)

theorem registration_table_sampleServer :
    (∀ subdomain, sampleServer.relay.subscribers.lookup subdomain = sampleServer.expected subdomain) ∧
      ∀ e, sampleServer.InOrder e → sampleServer.Undisturbed e :=
  registration_table
    (.step _ (.step _ (.new _ _) (by simp [Possible, new]) trivial)
      (show (1 : SocketId) ∈ [1] from List.mem_singleton_self 1)
      fun _ => by simp [step, onOpen, new])

/-- A socket whose registration was rejected takes the entry away when it closes. -/
theorem registration_table_lost : ¬ ∀ s : Server, Reachable (fun _ _ => True) s →
    (∀ subdomain, s.relay.subscribers.lookup subdomain = s.expected subdomain) ∧
      ∀ e, s.Undisturbed e := by
  intro h
  have hsample : Reachable (fun _ _ => True) sampleServer :=
    .step _ (.step _ (.new _ _) (by simp [Possible, new]) trivial)
      (show (1 : SocketId) ∈ [1] from List.mem_singleton_self 1) trivial
  have hopened := hsample.step (.opened 2 "did:key:a" true)
    (show (2 : SocketId) ∉ keys [(1, "did:key:a")] by decide) trivial
  have hrejected := hopened.step (.verified 2 (.rejected "nonce expired") fun _ => false)
    (show (2 : SocketId) ∈ [2] from List.mem_singleton_self 2) trivial
  have htable := (h _ (hrejected.step (.close 2) trivial trivial)).1 "did-key-a"
  revert htable
  decide +kernel

end Server

end ComputeContract
