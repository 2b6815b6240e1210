import Mathlib.Data.List.Perm.Basic
import ComputeContract.Spindle.Pipeline
import ComputeContract.Spindle.Tenants

/-!
# Knots

The spindle watches the event streams of knots. Of each stream it keeps a cursor, in memory and
on disk, which every frame advances as soon as it arrives; the stream goes on from there when it
is connected again. A pipeline event is handed to `triggerWorkflows` if its repository is
authorized for this spindle, which may have to be looked up first.

* `triggerOf`: the trigger of an event;
* `step`: connections, frames, lookups and restarts, and what changes the authorizations;
* `delivered_iff`: all events up to the cursor on disk have been handed exactly if none of them
  had to be looked up, and `owed_of_answered`: no event is lost as long as the lookups find what
  is there and the spindle does not stop during one.
-/

namespace ComputeContract.Spindle.Knots

open AssocList

/-! ## Events -/

structure TriggerRepo where
  did : Option String
  knot : Option String
  repo : Option String
  repoDid : Option String
  defaultBranch : Option String
  deriving DecidableEq

structure TriggerMetadata where
  kind : String
  repo : Option TriggerRepo
  /-- The `newSha` of a push. -/
  push : Option String
  /-- The inputs of a manual trigger. -/
  inputs : List (String × String)
  deriving DecidableEq

/-- A frame of a stream, of a pipeline if it has the metadata of a trigger. -/
structure EventsEnvelope where
  rkey : String
  nsid : String
  event : Option TriggerMetadata
  /-- In nanoseconds, if it is a number. -/
  created : Option ℤ
  deriving DecidableEq

/-- What `triggerWorkflows` is called with. -/
structure Trigger extends TriggerPayload where
  repoName : String
  inputs : List (String × String)
  deriving DecidableEq

/-- The commit that a trigger is for, empty if there is none. -/
def refOf (metadata : TriggerMetadata) (repo : TriggerRepo) : String :=
  match metadata.kind, metadata.push with
  | "push", some newSha => newSha
  | _, _ => repo.defaultBranch.getD ""

/-- The trigger of an event, unless it lacks a repository or a ref. -/
def triggerOf (knot : String) (envelope : EventsEnvelope) : Option Trigger :=
  if envelope.nsid ≠ "sh.tangled.pipeline" then none
  else
    match envelope.event with
    | none => none
    | some metadata =>
      match metadata.repo with
      | none => none
      | some repo =>
        let repoDid := repo.repoDid.getD ""
        let ref := refOf metadata repo
        if repoDid = "" ∨ ref = "" then none
        else some {
          knot := repo.knot.getD knot
          pipelineRkey := envelope.rkey
          actor := repo.did.getD ""
          repoDid
          ref
          repoName := repo.repo.getD ""
          inputs := metadata.inputs.foldl (fun inputs e => set e.1 e.2 inputs) [] }

/-! ## The state -/

/-- An open socket: the cursor that it was opened with, and what was received on it. -/
structure Connection where
  cursor : ℤ
  received : List EventsEnvelope

/-- An event that has arrived, and whether its repository was authorized then. -/
structure Arrival where
  knot : String
  envelope : EventsEnvelope
  authorized : Bool
  deriving DecidableEq

/-- The authorizations, the cursors in memory and on disk, the open sockets, the events whose
    repository is being looked up, and those that arrived and were handed on, over all restarts. -/
structure State where
  auth : Tenants.State
  cursors : List (String × ℤ)
  disk : List (String × ℤ)
  connections : List (String × Connection)
  lookups : List (String × EventsEnvelope)
  arrived : List Arrival
  handed : List (String × EventsEnvelope)

def State.getCursor (s : State) (knot : String) : ℤ := (s.cursors.lookup knot).getD 0

/-- The cursor is set, and saved unless the write fails. -/
def setCursor (knot : String) (cursor : ℤ) (saved : Bool) (s : State) : State :=
  let cursors := set knot cursor s.cursors
  { s with cursors, disk := if saved then cursors else s.disk }

section
variable (OWNER_DID HOSTNAME : String)

/-- A repository is authorized: it is in the cache, or has a durable record. -/
def State.authorized (s : State) (repoDid : String) : Bool :=
  (s.auth.cached repoDid).isSome ||
    s.auth.durable.any fun put => put.1 = Tenants.rkey HOSTNAME repoDid && put.2 ≠ ""

/-- A socket is opened; the first cursor of a knot is the time, so that its history is not
    replayed. -/
def connect (knot : String) (now : ℕ) (saved : Bool) (s : State) : State :=
  let s := if s.getCursor knot = 0 then setCursor knot (now * 1000000) saved s else s
  { s with connections := set knot ⟨s.getCursor knot, []⟩ s.connections }

/-- The cursor is advanced by a frame. -/
def advance (knot : String) (envelope : EventsEnvelope) (saved : Bool) (s : State) : State :=
  match envelope.created with
  | some created => if s.getCursor knot < created then setCursor knot created saved s else s
  | none => s

/-- A frame: the cursor is advanced, and a trigger is handed on or looked up first. -/
def onmessage (knot : String) (envelope : EventsEnvelope) (saved : Bool) (conn : Connection)
    (s : State) : State :=
  let s := { advance knot envelope saved s with
    connections := set knot { conn with received := conn.received ++ [envelope] } s.connections }
  match triggerOf knot envelope with
  | none => s
  | some trigger =>
    let arrival : Arrival := ⟨knot, envelope, s.authorized HOSTNAME trigger.repoDid⟩
    let s := { s with arrived := s.arrived ++ [arrival] }
    if (s.auth.cached trigger.repoDid).isSome then
      { s with handed := s.handed ++ [(knot, envelope)] }
    else { s with lookups := s.lookups ++ [(knot, envelope)] }

/-- A lookup is answered; a failure is taken for a refusal. -/
def reply (i : ℕ) (version : Option ℕ) (e : String × EventsEnvelope) (s : State) : State :=
  let s := { s with lookups := s.lookups.eraseIdx i }
  match triggerOf e.1 e.2 with
  | none => s
  | some trigger =>
    match s.auth.stored HOSTNAME trigger.repoDid version with
    | some spindle =>
      { s with
        auth.repoDidToSpindle := set trigger.repoDid spindle s.auth.repoDidToSpindle
        handed := s.handed ++ [e] }
    | none => s

def restart (s : State) : State :=
  { s with
    auth := Tenants.step OWNER_DID HOSTNAME s.auth .restart
    cursors := s.disk
    connections := []
    lookups := [] }

/-- What happens next; an authorization step is one of the process while it runs. -/
inductive Event
  | auth (e : Tenants.Event)
  | connect (knot : String) (now : ℕ) (saved : Bool)
  | close (knot : String)
  | message (knot : String) (envelope : EventsEnvelope) (saved : Bool)
  | reply (i : ℕ) (version : Option ℕ)
  | restart

def step (s : State) : Event → State
  | .auth .restart => s
  | .auth e => { s with auth := Tenants.step OWNER_DID HOSTNAME s.auth e }
  | .connect knot now saved =>
    match s.connections.lookup knot with
    | none => connect knot now saved s
    | some _ => s
  | .close knot => { s with connections := erase knot s.connections }
  | .message knot envelope saved =>
    match s.connections.lookup knot with
    | none => s
    | some conn => onmessage HOSTNAME knot envelope saved conn s
  | .reply i version =>
    match s.lookups[i]? with
    | none => s
    | some e => reply HOSTNAME i version e s
  | .restart => restart OWNER_DID HOSTNAME s

def initial : State := ⟨Tenants.initial, [], [], [], [], [], []⟩

end

/-! ## What should hold -/

/-- Every event of an authorized repository that has arrived, up to the cursor on disk, has been
    handed on once. -/
def Delivered (s : State) : Prop :=
  ∀ a ∈ s.arrived, a.authorized → ∀ created ∈ a.envelope.created, ∀ c ∈ s.disk.lookup a.knot,
    created ≤ c → s.handed.count (a.knot, a.envelope) = 1

/-- It has been handed on once, or its repository is being looked up. -/
def Owed (s : State) : Prop :=
  ∀ a ∈ s.arrived, a.authorized → ∀ created ∈ a.envelope.created, ∀ c ∈ s.disk.lookup a.knot,
    created ≤ c → s.handed.count (a.knot, a.envelope) + s.lookups.count (a.knot, a.envelope) = 1

/-- A knot sends what was created after the cursor, each frame once on a connection. -/
def FromKnot (s : State) : Event → Prop
  | .message knot envelope _ => ∀ conn ∈ s.connections.lookup knot,
      envelope ∉ conn.received ∧ ∀ created ∈ envelope.created, conn.cursor < created
  | _ => True

/-- The cursors can be written to the disk. -/
def Saved : Event → Prop
  | .connect _ _ saved | .message _ _ saved => saved
  | _ => True

/-- An event of an authorized repository arrives while the authorization is in the cache. -/
def Cached (HOSTNAME : String) (s : State) : Event → Prop
  | .message knot envelope _ => (s.connections.lookup knot).isSome → envelope.created.isSome →
      ∀ trigger ∈ triggerOf knot envelope, s.authorized HOSTNAME trigger.repoDid →
        (s.auth.cached trigger.repoDid).isSome
  | _ => True

/-- A lookup finds what is there, and the spindle does not stop during one. -/
def Answered (HOSTNAME : String) (s : State) : Event → Prop
  | .reply i version => ∀ e ∈ s.lookups[i]?, ∀ trigger ∈ triggerOf e.1 e.2,
      s.authorized HOSTNAME trigger.repoDid →
        (s.auth.stored HOSTNAME trigger.repoDid version).isSome
  | .restart => s.lookups = []
  | _ => True

instance (s : State) : ∀ e, Decidable (FromKnot s e)
  | .message knot envelope _ => inferInstanceAs (Decidable (∀ conn ∈ s.connections.lookup knot,
      envelope ∉ conn.received ∧ ∀ created ∈ envelope.created, conn.cursor < created))
  | .auth _ | .connect .. | .close _ | .reply .. | .restart => inferInstanceAs (Decidable True)

instance : ∀ e, Decidable (Saved e)
  | .connect _ _ saved | .message _ _ saved => inferInstanceAs (Decidable (saved = true))
  | .auth _ | .close _ | .reply .. | .restart => inferInstanceAs (Decidable True)

instance (HOSTNAME : String) (s : State) : ∀ e, Decidable (Cached HOSTNAME s e)
  | .message knot envelope _ => inferInstanceAs (Decidable ((s.connections.lookup knot).isSome →
      envelope.created.isSome → ∀ trigger ∈ triggerOf knot envelope,
        s.authorized HOSTNAME trigger.repoDid → (s.auth.cached trigger.repoDid).isSome))
  | .auth _ | .connect .. | .close _ | .reply .. | .restart => inferInstanceAs (Decidable True)

instance (HOSTNAME : String) (s : State) : ∀ e, Decidable (Answered HOSTNAME s e)
  | .reply i version => inferInstanceAs (Decidable (∀ e ∈ s.lookups[i]?,
      ∀ trigger ∈ triggerOf e.1 e.2, s.authorized HOSTNAME trigger.repoDid →
        (s.auth.stored HOSTNAME trigger.repoDid version).isSome))
  | .restart => inferInstanceAs (Decidable (s.lookups = []))
  | .auth _ | .connect .. | .close _ | .message .. => inferInstanceAs (Decidable True)

/-! ## Cursors -/

section
variable {OWNER_DID HOSTNAME knot : String} {envelope : EventsEnvelope} {saved : Bool} {s : State}

/-- No cursor is lost, and none goes back. -/
def Raises (cursors cursors' : List (String × ℤ)) : Prop :=
  ∀ knot c, cursors.lookup knot = some c → ∃ c', cursors'.lookup knot = some c' ∧ c ≤ c'

theorem Raises.refl (cursors : List (String × ℤ)) : Raises cursors cursors :=
  fun _ c h => ⟨c, h, le_rfl⟩

theorem raises_setCursor {cursor : ℤ} (h : s.getCursor knot ≤ cursor) :
    Raises s.cursors (setCursor knot cursor saved s).cursors := by
  intro knot' c hc
  dsimp only [setCursor]
  rw [lookup_set]
  split_ifs with heq
  · subst heq
    rw [State.getCursor, hc, Option.getD_some] at h
    exact ⟨cursor, rfl, h⟩
  · exact ⟨c, hc, le_rfl⟩

/-- A frame advances its cursor and nothing else. -/
theorem advance_frame (knot : String) (envelope : EventsEnvelope) (saved : Bool) (s : State) :
    advance knot envelope saved s =
      { s with
        cursors := (advance knot envelope saved s).cursors
        disk := (advance knot envelope saved s).disk } := by
  unfold advance
  split
  · split_ifs <;> rfl
  · rfl

theorem raises_advance (knot : String) (envelope : EventsEnvelope) (saved : Bool) (s : State) :
    Raises s.cursors (advance knot envelope saved s).cursors := by
  unfold advance
  split
  · split_ifs with hlt
    · exact raises_setCursor hlt.le
    · exact .refl _
  · exact .refl _

/-- After a frame, the cursor is not behind it. -/
theorem le_advance {created : ℤ} (hcreated : envelope.created = some created)
    (hcursor : (s.cursors.lookup knot).isSome) :
    ∃ c, (advance knot envelope saved s).cursors.lookup knot = some c ∧ created ≤ c := by
  unfold advance
  rw [hcreated]
  dsimp only
  split_ifs with hlt
  · refine ⟨created, ?_, le_rfl⟩
    dsimp only [setCursor]
    rw [lookup_set, if_pos rfl]
  · obtain ⟨c, hc⟩ := Option.isSome_iff_exists.1 hcursor
    refine ⟨c, hc, not_lt.1 fun hlt' => hlt ?_⟩
    rwa [State.getCursor, hc]

theorem disk_advance (h : s.disk = s.cursors) :
    (advance knot envelope true s).disk = (advance knot envelope true s).cursors := by
  unfold advance
  split
  · split_ifs
    · rfl
    · exact h
  · exact h

/-! ## The steps -/

/-- What a frame does to the events: one that is a trigger has arrived, and is handed on or
    looked up. -/
inductive Takes (HOSTNAME knot : String) (envelope : EventsEnvelope) (s s' : State) : Prop
  | ignored : triggerOf knot envelope = none → s'.arrived = s.arrived → s'.handed = s.handed →
      s'.lookups = s.lookups → Takes HOSTNAME knot envelope s s'
  | handed {trigger : Trigger} : triggerOf knot envelope = some trigger →
      (s.auth.cached trigger.repoDid).isSome →
      s'.arrived = s.arrived ++ [⟨knot, envelope, s.authorized HOSTNAME trigger.repoDid⟩] →
      s'.handed = s.handed ++ [(knot, envelope)] → s'.lookups = s.lookups →
      Takes HOSTNAME knot envelope s s'
  | lookedUp {trigger : Trigger} : triggerOf knot envelope = some trigger →
      ¬ (s.auth.cached trigger.repoDid).isSome →
      s'.arrived = s.arrived ++ [⟨knot, envelope, s.authorized HOSTNAME trigger.repoDid⟩] →
      s'.handed = s.handed → s'.lookups = s.lookups ++ [(knot, envelope)] →
      Takes HOSTNAME knot envelope s s'

/-- What a frame does. -/
theorem onmessage_spec {conn : Connection} {s' : State}
    (h : onmessage HOSTNAME knot envelope saved conn s = s') :
    s'.auth = s.auth ∧ s'.cursors = (advance knot envelope saved s).cursors ∧
      s'.disk = (advance knot envelope saved s).disk ∧
      s'.connections =
        set knot { conn with received := conn.received ++ [envelope] } s.connections ∧
      Takes HOSTNAME knot envelope s s' := by
  unfold onmessage at h
  rw [advance_frame] at h
  cases htrigger : triggerOf knot envelope with
  | none =>
    rw [htrigger] at h
    dsimp only at h
    subst h
    exact ⟨rfl, rfl, rfl, rfl, .ignored htrigger rfl rfl rfl⟩
  | some trigger =>
    rw [htrigger] at h
    dsimp only at h
    split_ifs at h with hcached
    · subst h
      exact ⟨rfl, rfl, rfl, rfl, .handed htrigger hcached rfl rfl rfl⟩
    · subst h
      exact ⟨rfl, rfl, rfl, rfl, .lookedUp htrigger hcached rfl rfl rfl⟩

/-- What the answer to a lookup does: the event is handed on if its repository was found. -/
theorem reply_spec {i : ℕ} {version : Option ℕ} {e : String × EventsEnvelope} {s' : State}
    (h : reply HOSTNAME i version e s = s') :
    s'.cursors = s.cursors ∧ s'.disk = s.disk ∧ s'.connections = s.connections ∧
      s'.arrived = s.arrived ∧ s'.auth.durable = s.auth.durable ∧
      s'.lookups = s.lookups.eraseIdx i ∧
      (s'.handed = s.handed ++ [e] ∨ s'.handed = s.handed ∧ ∀ trigger ∈ triggerOf e.1 e.2,
        s.auth.stored HOSTNAME trigger.repoDid version = none) := by
  unfold reply at h
  cases htrigger : triggerOf e.1 e.2 with
  | none =>
    rw [htrigger] at h
    dsimp only at h
    subst h
    exact ⟨rfl, rfl, rfl, rfl, rfl, rfl, .inr ⟨rfl, fun _ h => by cases h⟩⟩
  | some trigger =>
    rw [htrigger] at h
    dsimp only at h
    cases hstored : s.auth.stored HOSTNAME trigger.repoDid version with
    | none =>
      rw [hstored] at h
      dsimp only at h
      subst h
      refine ⟨rfl, rfl, rfl, rfl, rfl, rfl, .inr ⟨rfl, fun trigger' htrigger' => ?_⟩⟩
      obtain rfl := Option.some.inj htrigger'
      exact hstored
    | some spindle =>
      rw [hstored] at h
      dsimp only at h
      subst h
      exact ⟨rfl, rfl, rfl, rfl, rfl, rfl, .inl rfl⟩

/-! ## What every run keeps -/

/-- The cursors are saved, and are not behind what has arrived; what has arrived was received on
    the open connection or is not behind its cursor. -/
structure Inv (s : State) : Prop where
  saved : s.disk = s.cursors
  bounded : ∀ a ∈ s.arrived, ∀ created ∈ a.envelope.created,
    ∃ c, s.cursors.lookup a.knot = some c ∧ created ≤ c
  opened : ∀ knot conn, s.connections.lookup knot = some conn → (s.cursors.lookup knot).isSome ∧
    ∀ a ∈ s.arrived, a.knot = knot → a.envelope ∈ conn.received ∨
      ∀ created ∈ a.envelope.created, created ≤ conn.cursor
  handed : ∀ e ∈ s.handed, ∃ a ∈ s.arrived, (a.knot, a.envelope) = e
  lookups : ∀ e ∈ s.lookups, ∃ a ∈ s.arrived, (a.knot, a.envelope) = e

theorem inv_initial : Inv initial where
  saved := rfl
  bounded _ h := absurd h List.not_mem_nil
  opened _ _ h := by cases h
  handed _ h := absurd h List.not_mem_nil
  lookups _ h := absurd h List.not_mem_nil

/-- What has arrived with a time is not a new frame. -/
theorem Inv.fresh (h : Inv s) {conn : Connection} (hconn : s.connections.lookup knot = some conn)
    (hknot : FromKnot s (.message knot envelope saved)) {a : Arrival} (ha : a ∈ s.arrived)
    (hcreated : a.envelope.created.isSome) : (a.knot, a.envelope) ≠ (knot, envelope) := by
  intro heq
  obtain ⟨rfl, rfl⟩ := Prod.mk.inj heq
  obtain ⟨created, hcreated⟩ := Option.isSome_iff_exists.1 hcreated
  obtain ⟨hnew, hafter⟩ := hknot conn hconn
  rcases (h.opened a.knot conn hconn).2 a ha rfl with hreceived | hbefore
  · exact hnew hreceived
  · exact absurd (hbefore created hcreated) (hafter created hcreated).not_ge

theorem Raises.isSome {cursors cursors' : List (String × ℤ)} (h : Raises cursors cursors')
    (hcursor : (cursors.lookup knot).isSome) : (cursors'.lookup knot).isSome := by
  obtain ⟨c, hc⟩ := Option.isSome_iff_exists.1 hcursor
  obtain ⟨c', hc', -⟩ := h knot c hc
  exact Option.isSome_iff_exists.2 ⟨c', hc'⟩

/-- Cursors may go forward while the events and the connections stay. -/
theorem Inv.raise (h : Inv s) {cursors : List (String × ℤ)} (hraises : Raises s.cursors cursors) :
    Inv { s with cursors, disk := cursors } where
  saved := rfl
  bounded a ha created hcreated := by
    obtain ⟨c, hc, hle⟩ := h.bounded a ha created hcreated
    obtain ⟨c', hc', hle'⟩ := hraises a.knot c hc
    exact ⟨c', hc', hle.trans hle'⟩
  opened knot conn hconn :=
    ⟨hraises.isSome (h.opened knot conn hconn).1, (h.opened knot conn hconn).2⟩
  handed := h.handed
  lookups := h.lookups

/-- A connection starts from the cursor. -/
theorem Inv.open (h : Inv s) (hcursor : (s.cursors.lookup knot).isSome) :
    Inv { s with connections := set knot ⟨s.getCursor knot, []⟩ s.connections } where
  saved := h.saved
  bounded := h.bounded
  opened knot' conn hconn := by
    dsimp only at hconn
    rw [lookup_set] at hconn
    split_ifs at hconn with heq
    · subst heq
      obtain rfl := Option.some.inj hconn
      refine ⟨hcursor, fun a ha hknot => .inr fun created hcreated => ?_⟩
      subst hknot
      obtain ⟨c, hc, hle⟩ := h.bounded a ha created hcreated
      dsimp only [State.getCursor]
      rwa [hc]
    · exact h.opened knot' conn hconn
  handed := h.handed
  lookups := h.lookups

theorem Inv.connect (h : Inv s) (now : ℕ) : Inv (connect knot now true s) := by
  unfold Knots.connect
  dsimp only
  split_ifs with hzero
  · have hraises : Raises s.cursors (setCursor knot (now * 1000000) true s).cursors :=
      raises_setCursor (by omega)
    refine (h.raise hraises).open ?_
    dsimp only [setCursor]
    rw [lookup_set, if_pos rfl]
    rfl
  · refine h.open (Option.isSome_iff_ne_none.2 fun hnone => hzero ?_)
    rw [State.getCursor, hnone]
    rfl

/-- What arrives with a frame is the frame. -/
theorem Takes.arrived {s' : State} (h : Takes HOSTNAME knot envelope s s') {a : Arrival}
    (ha : a ∈ s'.arrived) : a ∈ s.arrived ∨ a.knot = knot ∧ a.envelope = envelope ∧
      ∃ trigger, triggerOf knot envelope = some trigger ∧
        a.authorized = s.authorized HOSTNAME trigger.repoDid := by
  cases h with
  | ignored _ harrived => exact .inl (harrived ▸ ha)
  | handed htrigger _ harrived | lookedUp htrigger _ harrived =>
    rw [harrived, List.mem_append, List.mem_singleton] at ha
    rcases ha with ha | rfl
    · exact .inl ha
    · exact .inr ⟨rfl, rfl, _, htrigger, rfl⟩

/-- What is handed on or looked up has arrived. -/
theorem Takes.events {s' : State} (h : Takes HOSTNAME knot envelope s s') :
    s.arrived ⊆ s'.arrived ∧
      (∀ e ∈ s'.handed, e ∈ s.handed ∨ ∃ a ∈ s'.arrived, (a.knot, a.envelope) = e) ∧
      ∀ e ∈ s'.lookups, e ∈ s.lookups ∨ ∃ a ∈ s'.arrived, (a.knot, a.envelope) = e := by
  cases h with
  | ignored _ harrived hhanded hlookups =>
    rw [harrived, hhanded, hlookups]
    exact ⟨fun _ h => h, fun _ => .inl, fun _ => .inl⟩
  | handed _ _ harrived hhanded hlookups =>
    rw [harrived, hhanded, hlookups]
    refine ⟨List.subset_append_left _ _, fun e he => ?_, fun _ => .inl⟩
    rw [List.mem_append, List.mem_singleton] at he
    exact he.imp_right fun heq =>
      ⟨_, List.mem_append_right _ (List.mem_singleton_self _), heq.symm⟩
  | lookedUp _ _ harrived hhanded hlookups =>
    rw [harrived, hhanded, hlookups]
    refine ⟨List.subset_append_left _ _, fun _ => .inl, fun e he => ?_⟩
    rw [List.mem_append, List.mem_singleton] at he
    exact he.imp_right fun heq =>
      ⟨_, List.mem_append_right _ (List.mem_singleton_self _), heq.symm⟩

theorem Inv.message (h : Inv s) {conn : Connection} (hconn : s.connections.lookup knot = some conn) :
    Inv (onmessage HOSTNAME knot envelope true conn s) := by
  obtain ⟨-, hcursors, hdisk, hconnections, htakes⟩ :=
    @onmessage_spec HOSTNAME knot envelope true s conn _ rfl
  have hraises := raises_advance knot envelope true s
  obtain ⟨hcursor, hreceived⟩ := h.opened knot conn hconn
  obtain ⟨hsubset, hhanded, hlookups⟩ := htakes.events
  refine ⟨?_, fun a ha created hcreated => ?_, fun knot' conn' hconn' => ?_, fun e he => ?_,
    fun e he => ?_⟩
  · rw [hdisk, hcursors]
    exact disk_advance h.saved
  · rw [hcursors]
    rcases htakes.arrived ha with ha | ⟨rfl, rfl, -⟩
    · obtain ⟨c, hc, hle⟩ := h.bounded a ha created hcreated
      obtain ⟨c', hc', hle'⟩ := hraises a.knot c hc
      exact ⟨c', hc', hle.trans hle'⟩
    · exact le_advance hcreated hcursor
  · rw [hconnections, lookup_set] at hconn'
    rw [hcursors]
    split_ifs at hconn' with heq
    · subst heq
      obtain rfl := Option.some.inj hconn'
      refine ⟨hraises.isSome hcursor, fun a ha hknot => ?_⟩
      rcases htakes.arrived ha with ha | ⟨-, rfl, -⟩
      · exact (hreceived a ha hknot).imp_left (List.mem_append_left _)
      · exact .inl (List.mem_append_right _ (List.mem_singleton_self _))
    · obtain ⟨hcursor', hreceived'⟩ := h.opened knot' conn' hconn'
      refine ⟨hraises.isSome hcursor', fun a ha hknot => ?_⟩
      rcases htakes.arrived ha with ha | ⟨hknot', -, -⟩
      · exact hreceived' a ha hknot
      · exact absurd (hknot.symm.trans hknot') heq
  · rcases hhanded e he with he | he
    · obtain ⟨a, ha, heq⟩ := h.handed e he
      exact ⟨a, hsubset ha, heq⟩
    · exact he
  · rcases hlookups e he with he | he
    · obtain ⟨a, ha, heq⟩ := h.lookups e he
      exact ⟨a, hsubset ha, heq⟩
    · exact he

theorem Inv.reply (h : Inv s) {i : ℕ} {version : Option ℕ} {e : String × EventsEnvelope}
    (he : s.lookups[i]? = some e) : Inv (reply HOSTNAME i version e s) := by
  obtain ⟨hcursors, hdisk, hconnections, harrived, -, hlookups, hhanded⟩ :=
    @reply_spec HOSTNAME s i version e _ rfl
  refine ⟨?_, ?_, ?_, fun e' he' => ?_, fun e' he' => ?_⟩
  · rw [hdisk, hcursors]
    exact h.saved
  · rw [harrived, hcursors]
    exact h.bounded
  · rw [harrived, hcursors, hconnections]
    exact h.opened
  · rw [harrived]
    rcases hhanded with hhanded | ⟨hhanded, -⟩
    · rw [hhanded, List.mem_append, List.mem_singleton] at he'
      rcases he' with he' | rfl
      · exact h.handed e' he'
      · exact h.lookups e' (List.mem_of_getElem? he)
    · exact h.handed e' (hhanded ▸ he')
  · rw [harrived]
    exact h.lookups e' (List.mem_of_mem_eraseIdx (hlookups ▸ he'))

theorem inv_step (h : Inv s) {e : Event} (hsaved : Saved e) :
    Inv (step OWNER_DID HOSTNAME s e) := by
  cases e with
  | auth e =>
    cases e with
    | restart => exact h
    | _ => exact ⟨h.saved, h.bounded, h.opened, h.handed, h.lookups⟩
  | connect knot now saved =>
    obtain rfl : saved = true := hsaved
    dsimp only [step]
    split
    · exact h.connect now
    · exact h
  | close knot =>
    refine ⟨h.saved, h.bounded, fun knot' conn hconn => ?_, h.handed, h.lookups⟩
    dsimp only [step] at hconn
    rw [lookup_erase] at hconn
    split_ifs at hconn
    exact h.opened knot' conn hconn
  | message knot envelope saved =>
    obtain rfl : saved = true := hsaved
    dsimp only [step]
    split
    · exact h
    · next conn hconn => exact h.message hconn
  | reply i version =>
    dsimp only [step]
    split
    · exact h
    · next e he => exact h.reply he
  | restart =>
    refine ⟨rfl, ?_, fun _ _ hconn => absurd hconn nofun, h.handed,
      fun _ he => absurd he List.not_mem_nil⟩
    change ∀ a ∈ s.arrived, ∀ created ∈ a.envelope.created,
      ∃ c, s.disk.lookup a.knot = some c ∧ created ≤ c
    rw [h.saved]
    exact h.bounded

/-! ## What is handed on -/

/-- A new frame is not among the events that were handed on or are looked up. -/
theorem Inv.count_eq_zero (h : Inv s) {conn : Connection}
    (hconn : s.connections.lookup knot = some conn)
    (hknot : FromKnot s (.message knot envelope saved)) (hcreated : envelope.created.isSome) :
    s.handed.count (knot, envelope) = 0 ∧ s.lookups.count (knot, envelope) = 0 := by
  have hnew : ∀ a ∈ s.arrived, (a.knot, a.envelope) ≠ (knot, envelope) := by
    intro a ha heq
    obtain ⟨-, rfl⟩ := Prod.mk.inj heq
    exact h.fresh hconn hknot ha hcreated heq
  refine ⟨List.count_eq_zero.2 fun he => ?_, List.count_eq_zero.2 fun he => ?_⟩
  · obtain ⟨a, ha, heq⟩ := h.handed _ he
    exact hnew a ha heq
  · obtain ⟨a, ha, heq⟩ := h.lookups _ he
    exact hnew a ha heq

theorem count_concat_of_ne {α : Type} [BEq α] [LawfulBEq α] {x y : α} (h : x ≠ y) (l : List α) :
    (l ++ [y]).count x = l.count x := by
  rw [List.count_append, List.count_singleton, if_neg (by simpa using h.symm), Nat.add_zero]

theorem count_concat_self {α : Type} [BEq α] [LawfulBEq α] (x : α) (l : List α) :
    (l ++ [x]).count x = l.count x + 1 := by
  rw [List.count_append, List.count_singleton_self]

/-- A frame leaves the other events as they are. -/
theorem Takes.count_of_ne {s' : State} (h : Takes HOSTNAME knot envelope s s')
    {x : String × EventsEnvelope} (hx : x ≠ (knot, envelope)) :
    s'.handed.count x = s.handed.count x ∧ s'.lookups.count x = s.lookups.count x := by
  cases h with
  | ignored _ _ hhanded hlookups => rw [hhanded, hlookups]; exact ⟨rfl, rfl⟩
  | handed _ _ _ hhanded hlookups =>
    rw [hhanded, hlookups]
    exact ⟨count_concat_of_ne hx _, rfl⟩
  | lookedUp _ _ _ hhanded hlookups =>
    rw [hhanded, hlookups]
    exact ⟨rfl, count_concat_of_ne hx _⟩

/-- A trigger is handed on if its repository is in the cache, and looked up otherwise. -/
theorem Takes.count_self {s' : State} (h : Takes HOSTNAME knot envelope s s') {trigger : Trigger}
    (htrigger : triggerOf knot envelope = some trigger) :
    if (s.auth.cached trigger.repoDid).isSome then
      s'.handed.count (knot, envelope) = s.handed.count (knot, envelope) + 1 ∧
        s'.lookups.count (knot, envelope) = s.lookups.count (knot, envelope)
    else
      s'.handed.count (knot, envelope) = s.handed.count (knot, envelope) ∧
        s'.lookups.count (knot, envelope) = s.lookups.count (knot, envelope) + 1 := by
  cases h with
  | ignored hnone => rw [htrigger] at hnone; cases hnone
  | handed htrigger' hcached _ hhanded hlookups =>
    obtain rfl := Option.some.inj (htrigger.symm.trans htrigger')
    rw [if_pos hcached, hhanded, hlookups]
    exact ⟨count_concat_self _ _, rfl⟩
  | lookedUp htrigger' hcached _ hhanded hlookups =>
    obtain rfl := Option.some.inj (htrigger.symm.trans htrigger')
    rw [if_neg hcached, hhanded, hlookups]
    exact ⟨rfl, count_concat_self _ _⟩

/-- The events of authorized repositories were handed on once, and none is looked up. -/
def AllHanded (s : State) : Prop :=
  ∀ a ∈ s.arrived, a.authorized → a.envelope.created.isSome →
    s.handed.count (a.knot, a.envelope) = 1 ∧ s.lookups.count (a.knot, a.envelope) = 0

/-- They were handed on once, or are looked up, and then there is a durable record. -/
def AllOwed (HOSTNAME : String) (s : State) : Prop :=
  ∀ a ∈ s.arrived, a.authorized → a.envelope.created.isSome →
    s.handed.count (a.knot, a.envelope) + s.lookups.count (a.knot, a.envelope) = 1 ∧
      (0 < s.lookups.count (a.knot, a.envelope) → ∃ trigger ∈ triggerOf a.knot a.envelope,
        ∃ put ∈ s.auth.durable, put.1 = Tenants.rkey HOSTNAME trigger.repoDid ∧ put.2 ≠ "")

theorem AllHanded.delivered (h : AllHanded s) : Delivered s := by
  intro a ha hauthorized created hcreated _ _ _
  exact (h a ha hauthorized (Option.isSome_of_mem hcreated)).1

theorem AllOwed.owed (h : AllOwed HOSTNAME s) : Owed s := by
  intro a ha hauthorized created hcreated _ _ _
  exact (h a ha hauthorized (Option.isSome_of_mem hcreated)).1

theorem AllHanded.message (h : AllHanded s) (hs : Inv s) {conn : Connection}
    (hconn : s.connections.lookup knot = some conn)
    (hknot : FromKnot s (.message knot envelope saved))
    (hcached : Cached HOSTNAME s (.message knot envelope saved)) :
    AllHanded (onmessage HOSTNAME knot envelope saved conn s) := by
  obtain ⟨-, -, -, -, htakes⟩ := @onmessage_spec HOSTNAME knot envelope saved s conn _ rfl
  intro a ha hauthorized hcreated
  rcases htakes.arrived ha with ha | ⟨rfl, rfl, trigger, htrigger, hsame⟩
  · obtain ⟨hhanded, hlookups⟩ := htakes.count_of_ne (hs.fresh hconn hknot ha hcreated)
    rw [hhanded, hlookups]
    exact h a ha hauthorized hcreated
  · have hcount := htakes.count_self htrigger
    have hhit := hcached (Option.isSome_of_eq_some hconn) hcreated trigger htrigger
      (hsame ▸ hauthorized)
    obtain ⟨hhanded, hlookups⟩ := hs.count_eq_zero hconn hknot hcreated
    rwa [if_pos hhit, hhanded, hlookups] at hcount

theorem AllOwed.message (h : AllOwed HOSTNAME s) (hs : Inv s) {conn : Connection}
    (hconn : s.connections.lookup knot = some conn)
    (hknot : FromKnot s (.message knot envelope saved)) :
    AllOwed HOSTNAME (onmessage HOSTNAME knot envelope saved conn s) := by
  obtain ⟨hauth, -, -, -, htakes⟩ := @onmessage_spec HOSTNAME knot envelope saved s conn _ rfl
  intro a ha hauthorized hcreated
  rcases htakes.arrived ha with ha | ⟨rfl, rfl, trigger, htrigger, hsame⟩
  · obtain ⟨hhanded, hlookups⟩ := htakes.count_of_ne (hs.fresh hconn hknot ha hcreated)
    rw [hhanded, hlookups, hauth]
    exact h a ha hauthorized hcreated
  · have hcount := htakes.count_self htrigger
    obtain ⟨hhanded, hlookups⟩ := hs.count_eq_zero hconn hknot hcreated
    rw [hhanded, hlookups] at hcount
    split_ifs at hcount with hhit
    · refine ⟨by omega, fun hpos => ?_⟩
      omega
    · refine ⟨by omega, fun _ => ⟨trigger, htrigger, ?_⟩⟩
      rw [hsame, State.authorized, Bool.or_eq_true, or_iff_right hhit, List.any_eq_true]
        at hauthorized
      obtain ⟨put, hput, hkey⟩ := hauthorized
      rw [hauth]
      rw [Bool.and_eq_true, decide_eq_true_eq, decide_eq_true_eq] at hkey
      exact ⟨put, hput, hkey⟩

theorem count_of_getElem? {i : ℕ} {e : String × EventsEnvelope} (he : s.lookups[i]? = some e)
    (x : String × EventsEnvelope) :
    s.lookups.count x = (s.lookups.eraseIdx i).count x + [e].count x := by
  obtain ⟨hi, rfl⟩ := List.getElem?_eq_some_iff.1 he
  have hcount := (List.getElem_cons_eraseIdx_perm hi).count_eq x
  rw [← List.singleton_append, List.count_append] at hcount
  omega

theorem AllHanded.reply (h : AllHanded s) {i : ℕ} {version : Option ℕ}
    {e : String × EventsEnvelope} (he : s.lookups[i]? = some e) :
    AllHanded (reply HOSTNAME i version e s) := by
  obtain ⟨-, -, -, harrived, -, hlookups, hhanded⟩ :=
    @reply_spec HOSTNAME s i version e _ rfl
  intro a ha hauthorized hcreated
  obtain ⟨hone, hzero⟩ := h a (harrived ▸ ha) hauthorized hcreated
  have hcount := count_of_getElem? he (a.knot, a.envelope)
  have hne : (a.knot, a.envelope) ≠ e := by
    rintro rfl
    exact List.count_eq_zero.1 hzero (List.mem_of_getElem? he)
  refine ⟨?_, by rw [hlookups]; omega⟩
  rcases hhanded with hhanded | ⟨hhanded, -⟩
  · rw [hhanded, count_concat_of_ne hne, hone]
  · rw [hhanded, hone]

theorem AllOwed.reply (h : AllOwed HOSTNAME s) {i : ℕ} {version : Option ℕ}
    {e : String × EventsEnvelope} (he : s.lookups[i]? = some e)
    (hanswered : Answered HOSTNAME s (.reply i version)) :
    AllOwed HOSTNAME (reply HOSTNAME i version e s) := by
  obtain ⟨-, -, -, harrived, hdurable, hlookups, hhanded⟩ :=
    @reply_spec HOSTNAME s i version e _ rfl
  intro a ha hauthorized hcreated
  obtain ⟨hone, hstored⟩ := h a (harrived ▸ ha) hauthorized hcreated
  have hcount := count_of_getElem? he (a.knot, a.envelope)
  rw [hlookups, hdurable]
  refine ⟨?_, fun hpos => hstored (by omega)⟩
  by_cases heq : (a.knot, a.envelope) = e
  · subst heq
    rw [List.count_singleton_self] at hcount
    rcases hhanded with hhanded | ⟨-, hnone⟩
    · rw [hhanded, count_concat_self]
      omega
    · -- The lookup has found nothing, though there is a durable record.
      obtain ⟨trigger, htrigger, put, hput, hkey, hne⟩ := hstored (by omega)
      have hauth : s.authorized HOSTNAME trigger.repoDid := by
        rw [State.authorized, Bool.or_eq_true, List.any_eq_true]
        exact .inr ⟨put, hput, by simp [hkey, hne]⟩
      have hfound := hanswered _ he trigger htrigger hauth
      rw [hnone trigger htrigger] at hfound
      cases hfound
  · rw [List.count_singleton, if_neg (by simpa using Ne.symm heq)] at hcount
    rcases hhanded with hhanded | ⟨hhanded, -⟩
    · rw [hhanded, count_concat_of_ne heq]
      omega
    · rw [hhanded]
      omega

theorem allHanded_step (h : AllHanded s) (hs : Inv s) {e : Event} (hknot : FromKnot s e)
    (hcached : Cached HOSTNAME s e) : AllHanded (step OWNER_DID HOSTNAME s e) := by
  cases e with
  | auth e =>
    cases e with
    | restart => exact h
    | _ => exact h
  | connect knot now saved =>
    dsimp only [step]
    split
    · unfold connect
      dsimp only
      split_ifs <;> exact h
    · exact h
  | close knot => exact h
  | message knot envelope saved =>
    dsimp only [step]
    split
    · exact h
    · next conn hconn => exact h.message hs hconn hknot hcached
  | reply i version =>
    dsimp only [step]
    split
    · exact h
    · next e he => exact h.reply he
  | restart =>
    intro a ha hauthorized hcreated
    exact ⟨(h a ha hauthorized hcreated).1, rfl⟩

/-- No durable record is lost. -/
theorem durable_step (auth : Tenants.State) (e : Tenants.Event) :
    auth.durable ⊆ (Tenants.step OWNER_DID HOSTNAME auth e).durable := by
  cases e with
  | record ownerDid rec =>
    dsimp only [Tenants.step, Tenants.seeRecord]
    split
    · split_ifs <;> exact fun _ h => h
    · exact fun _ h => h
  | putRecord i ok =>
    dsimp only [Tenants.step]
    split
    · exact fun _ h => h
    · dsimp only
      split_ifs
      · exact List.subset_append_left _ _
      · exact fun _ h => h
  | reply i version =>
    dsimp only [Tenants.step]
    split
    · exact fun _ h => h
    · unfold Tenants.reply
      split
      · split <;> exact fun _ h => h
      · split <;> exact fun _ h => h
      · exact fun _ h => h
  | discovered i =>
    dsimp only [Tenants.step]
    split
    · exact fun _ h => h
    · unfold Tenants.discovered
      split <;> exact fun _ h => h
  | request _ _ | restart => exact fun _ h => h

theorem AllOwed.auth (h : AllOwed HOSTNAME s) (e : Tenants.Event) :
    AllOwed HOSTNAME { s with auth := Tenants.step OWNER_DID HOSTNAME s.auth e } := by
  intro a ha hauthorized hcreated
  obtain ⟨hone, hstored⟩ := h a ha hauthorized hcreated
  refine ⟨hone, fun hpos => ?_⟩
  obtain ⟨trigger, htrigger, put, hput, hkey⟩ := hstored hpos
  exact ⟨trigger, htrigger, put, durable_step s.auth e hput, hkey⟩

theorem allOwed_step (h : AllOwed HOSTNAME s) (hs : Inv s) {e : Event} (hknot : FromKnot s e)
    (hanswered : Answered HOSTNAME s e) : AllOwed HOSTNAME (step OWNER_DID HOSTNAME s e) := by
  cases e with
  | auth e =>
    cases e with
    | restart => exact h
    | _ => exact h.auth _
  | connect knot now saved =>
    dsimp only [step]
    split
    · unfold connect
      dsimp only
      split_ifs <;> exact h
    · exact h
  | close knot => exact h
  | message knot envelope saved =>
    dsimp only [step]
    split
    · exact h
    · next conn hconn => exact h.message hs hconn hknot
  | reply i version =>
    dsimp only [step]
    split
    · exact h
    · next e he => exact h.reply he hanswered
  | restart =>
    intro a ha hauthorized hcreated
    obtain ⟨hone, -⟩ := h a ha hauthorized hcreated
    rw [show s.lookups = [] from hanswered] at hone
    exact ⟨hone, fun hpos => absurd hpos (lt_irrefl 0)⟩

/-- A frame of an authorized repository that is not in the cache is not handed on at once. -/
theorem cached_of_delivered (hs : Inv s) {e : Event} (hknot : FromKnot s e) (hsaved : Saved e)
    (h : Delivered (step OWNER_DID HOSTNAME s e)) : Cached HOSTNAME s e := by
  cases e with
  | message knot envelope saved =>
    obtain rfl : saved = true := hsaved
    intro hopen hcreated trigger htrigger hauthorized
    obtain ⟨conn, hconn⟩ := Option.isSome_iff_exists.1 hopen
    have hstep : step OWNER_DID HOSTNAME s (.message knot envelope true) =
        onmessage HOSTNAME knot envelope true conn s := by
      dsimp only [step]
      rw [hconn]
    rw [hstep] at h
    have hnext : Inv (onmessage HOSTNAME knot envelope true conn s) := hs.message hconn
    obtain ⟨-, -, -, -, htakes⟩ := @onmessage_spec HOSTNAME knot envelope true s conn _ rfl
    by_contra hmiss
    have hcount := htakes.count_self htrigger
    rw [if_neg hmiss, (hs.count_eq_zero hconn hknot hcreated).1] at hcount
    obtain ⟨a, ha, hknot', henvelope, hauth⟩ : ∃ a ∈ (onmessage HOSTNAME knot envelope true conn
        s).arrived, a.knot = knot ∧ a.envelope = envelope ∧ a.authorized = true := by
      cases htakes with
      | ignored hnone => rw [htrigger] at hnone; cases hnone
      | handed htrigger' _ harrived _ _ | lookedUp htrigger' _ harrived _ _ =>
        obtain rfl := Option.some.inj (htrigger.symm.trans htrigger')
        exact ⟨_, harrived ▸ List.mem_append_right _ (List.mem_singleton_self _), rfl, rfl,
          hauthorized⟩
    subst hknot' henvelope
    obtain ⟨created, hcreated⟩ := Option.isSome_iff_exists.1 hcreated
    obtain ⟨c, hc, hle⟩ := hnext.bounded a ha created hcreated
    have hone := h a ha hauth created hcreated c (hnext.saved ▸ hc) hle
    omega
  | _ => trivial

/-- All events up to the cursor on disk are handed on once exactly if none of them has to be
    looked up; and none is lost or handed on twice, as long as the lookups find what is there and
    the spindle does not stop during one. -/
theorem handed_once (OWNER_DID HOSTNAME : String) (events : List Event)
    (h : Along (step OWNER_DID HOSTNAME) (fun s e => FromKnot s e ∧ Saved e) initial events) :
    (Along (step OWNER_DID HOSTNAME) (fun s e => Delivered (step OWNER_DID HOSTNAME s e)) initial
        events ↔
      Along (step OWNER_DID HOSTNAME) (Cached HOSTNAME) initial events) ∧
    (Along (step OWNER_DID HOSTNAME) (Answered HOSTNAME) initial events →
      Along (step OWNER_DID HOSTNAME) (fun s e => Owed (step OWNER_DID HOSTNAME s e)) initial
        events) := by
  refine ⟨⟨fun hdelivered => ?_, fun hcached => ?_⟩, fun hanswered => ?_⟩
  · have hstep : ∀ s e, Inv s → (FromKnot s e ∧ Saved e) ∧ Delivered (step OWNER_DID HOSTNAME s e) →
        Cached HOSTNAME s e ∧ Inv (step OWNER_DID HOSTNAME s e) := by
      rintro s e hs ⟨⟨hknot, hsaved⟩, hdelivered⟩
      exact ⟨cached_of_delivered hs hknot hsaved hdelivered, inv_step hs hsaved⟩
    exact along_of_inv hstep inv_initial (along_and.2 ⟨h, hdelivered⟩)
  · have hstep : ∀ s e, Inv s ∧ AllHanded s → (FromKnot s e ∧ Saved e) ∧ Cached HOSTNAME s e →
        Delivered (step OWNER_DID HOSTNAME s e) ∧ Inv (step OWNER_DID HOSTNAME s e) ∧
          AllHanded (step OWNER_DID HOSTNAME s e) := by
      rintro s e ⟨hs, hall⟩ ⟨⟨hknot, hsaved⟩, hcached⟩
      have hnext : AllHanded (step OWNER_DID HOSTNAME s e) := allHanded_step hall hs hknot hcached
      exact ⟨hnext.delivered, inv_step hs hsaved, hnext⟩
    exact along_of_inv hstep ⟨inv_initial, fun _ ha => absurd ha List.not_mem_nil⟩
      (along_and.2 ⟨h, hcached⟩)
  · have hstep : ∀ s e, Inv s ∧ AllOwed HOSTNAME s →
        (FromKnot s e ∧ Saved e) ∧ Answered HOSTNAME s e →
        Owed (step OWNER_DID HOSTNAME s e) ∧ Inv (step OWNER_DID HOSTNAME s e) ∧
          AllOwed HOSTNAME (step OWNER_DID HOSTNAME s e) := by
      rintro s e ⟨hs, hall⟩ ⟨⟨hknot, hsaved⟩, hanswered⟩
      have hnext : AllOwed HOSTNAME (step OWNER_DID HOSTNAME s e) :=
        allOwed_step hall hs hknot hanswered
      exact ⟨hnext.owed, inv_step hs hsaved, hnext⟩
    exact along_of_inv hstep ⟨inv_initial, fun _ ha => absurd ha List.not_mem_nil⟩
      (along_and.2 ⟨h, hanswered⟩)

end

/-! ## A push while the authorization is not in the cache -/

/-- Alice pushes to her repository. -/
def samplePush : EventsEnvelope :=
  ⟨"3kabcdefghijk", "sh.tangled.pipeline", some ⟨"push", some ⟨some "did:plc:alice",
    some "knot.example", some "repo", some "did:plc:repo", some "main"⟩, some "0a1b2c", []⟩,
    some 2000000⟩

/-- What is known of the repository before the push. -/
def sampleRecorded : List Event :=
  [.auth Tenants.sampleRecord, .auth (.putRecord 0 true), .connect "knot.example" 1 true]

theorem handed_once_sample :
    Along (step "" "spindle.example") (fun s e => Delivered (step "" "spindle.example" s e)) initial
      (sampleRecorded ++ [.message "knot.example" samplePush true, .restart]) :=
  (handed_once "" "spindle.example"
    (sampleRecorded ++ [.message "knot.example" samplePush true, .restart])
    (by decide +kernel)).1.2 (by decide +kernel)

/-- After a restart the repository is looked up; the lookup fails, and the push is never handed
    on, though the cursor is at it. -/
theorem not_handed_once : ¬ ∀ (OWNER_DID HOSTNAME : String) (events : List Event),
    Along (step OWNER_DID HOSTNAME) (fun s e => FromKnot s e ∧ Saved e) initial events →
    Along (step OWNER_DID HOSTNAME) (fun s e => (step OWNER_DID HOSTNAME s e).lookups = [] →
      Delivered (step OWNER_DID HOSTNAME s e)) initial events := by
  intro hall
  have hrun := hall "" "spindle.example"
    (sampleRecorded ++ [.restart, .connect "knot.example" 1 true,
      .message "knot.example" samplePush true, .reply 0 none]) (by decide +kernel)
  have hlast := hrun.2.2.2.2.2.2.1 (by decide +kernel) ⟨"knot.example", samplePush, true⟩
    (by decide +kernel) rfl 2000000 rfl 2000000 (by decide +kernel) le_rfl
  exact absurd hlast (by decide +kernel)

end ComputeContract.Spindle.Knots
