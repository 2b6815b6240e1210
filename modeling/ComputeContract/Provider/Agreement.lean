import ComputeContract.Lib.Split
import ComputeContract.Provider.Identity

/-!
# Agreement of the subjects

The token of a VM has the subject that its grant names, no VM of another requester has it, and
no nonce gives two tokens, as long as roles have no colon, container names are new, and
requesters that ask for the same role have different last segments.

* `subject_tagsOf`: the subject of a droplet is that of its grant;
* `Inv`: what is known of droplets, nonces and requests;
* `identity_of_careful`: the property of runs.
-/

namespace ComputeContract.Provider

open AssocList

/-! ## Subjects -/

theorem splitAt_append {c : Char} {s t u : String} (h : s.toList = t.toList ++ c :: u.toList)
    (hc : c ∉ t.toList) : splitAt c s = t :: splitAt c u := by
  rw [splitAt, h, List.splitOn_append_cons_self_of_not_mem hc]
  simp [splitAt]

theorem splitAt_of_not_mem {c : Char} {s : String} (h : c ∉ s.toList) : splitAt c s = [s] := by
  rw [splitAt, List.splitOn_eq_singleton h]
  simp

/-- A segment has no colon. -/
theorem not_mem_lastSegment (did : String) : ':' ∉ (lastSegment did).toList := by
  unfold lastSegment splitAt
  rw [List.getLast?_map]
  cases hlast : (did.toList.splitOn ':').getLast? with
  | none => exact List.not_mem_nil
  | some part =>
    have hpart := not_mem_of_mem_splitOn (List.mem_of_getLast? hlast)
    simpa using hpart

theorem splitAt_tag {key value : String} (hkey : ':' ∉ key.toList) :
    splitAt ':' ("oidc-sub:" ++ key ++ ":" ++ value) = "oidc-sub" :: key :: splitAt ':' value := by
  rw [splitAt_append (t := "oidc-sub") (u := key ++ ":" ++ value) (by simp) (by decide),
    splitAt_append (t := key) (u := value) (by simp) hkey]

theorem length_splitAt_eq_one {c : Char} {s : String} : (splitAt c s).length = 1 ↔ c ∉ s.toList := by
  constructor
  · intro h hc
    obtain ⟨t, u, htu⟩ := List.append_of_mem hc
    have hne := List.length_pos_iff.2 (List.splitOn_ne_nil c t)
    have hne' := List.length_pos_iff.2 (List.splitOn_ne_nil c u)
    rw [splitAt, List.length_map, htu, List.splitOn_append_cons_self, List.length_append] at h
    omega
  · intro h
    rw [splitAt_of_not_mem h]
    rfl

/-- A tag counts if its value has no colon. -/
theorem isSubjectTag_tag {key value : String} (hkey : ':' ∉ key.toList) (hactx : key ≠ "actx") :
    isSubjectTag ("oidc-sub:" ++ key ++ ":" ++ value) ↔ ':' ∉ value.toList := by
  have htag : "oidc-sub:".toList.isPrefixOf ("oidc-sub:" ++ key ++ ":" ++ value).toList := by
    simp
  rw [isSubjectTag, htag, splitAt_tag hkey, ← length_splitAt_eq_one]
  simp [hactx]

theorem subjectPart_tag {key value : String} (hkey : ':' ∉ key.toList)
    (hvalue : ':' ∉ value.toList) :
    subjectPart ("oidc-sub:" ++ key ++ ":" ++ value) = key ++ ":" ++ value := by
  rw [subjectPart, splitAt_tag hkey, splitAt_of_not_mem hvalue]
  rfl

theorem tagsOf_eq (requesterDid role : String) : tagsOf requesterDid role =
    ["oidc-sub:" ++ "plc" ++ ":" ++ lastSegment requesterDid,
      "oidc-sub:" ++ "role" ++ ":" ++ role] := rfl

/-- The tags of a droplet give the subject that the grant names. -/
theorem subject_tagsOf (cfg : Config) (requesterDid : String) {role : String}
    (hrole : ':' ∉ role.toList) : subject (lastSegment cfg.agentDid) (tagsOf requesterDid role) =
      subjectOf cfg.agentDid requesterDid role := by
  have hsegment := not_mem_lastSegment requesterDid
  have hplc := (isSubjectTag_tag (by decide : ':' ∉ "plc".toList) (by decide)).2 hsegment
  have hrole' := (isSubjectTag_tag (by decide : ':' ∉ "role".toList) (by decide)).2 hrole
  rw [subject, tagsOf_eq, List.filter_cons_of_pos hplc, List.filter_cons_of_pos hrole',
    List.filter_nil, List.map_cons, List.map_singleton, subjectPart_tag (by decide) hsegment,
    subjectPart_tag (by decide) hrole]
  exact String.toList_injective (by simp [subjectOf])

/-- A subject tells the last segment of the requester, and the role. -/
theorem subjectOf_inj {agentDid requesterDid requesterDid' role role' : String}
    (h : subjectOf agentDid requesterDid role = subjectOf agentDid requesterDid' role') :
    lastSegment requesterDid = lastSegment requesterDid' ∧ role = role' := by
  have hlist (r ρ : String) : (subjectOf agentDid r ρ).toList =
      ("actx:" ++ lastSegment agentDid ++ ":plc:").toList ++
        ((lastSegment r).toList ++ ':' :: ("role:".toList ++ ρ.toList)) := by
    simp [subjectOf]
  have heq := congrArg String.toList h
  rw [hlist, hlist, List.append_cancel_left_eq] at heq
  have hsplit := congrArg (List.splitOn ':') heq
  rw [List.splitOn_append_cons_self_of_not_mem (not_mem_lastSegment _),
    List.splitOn_append_cons_self_of_not_mem (not_mem_lastSegment _)] at hsplit
  have hsegment := (List.cons.inj hsplit).1
  rw [hsegment] at heq
  have hrole := List.append_cancel_left (List.cons.inj (List.append_cancel_left heq)).2
  exact ⟨String.toList_injective hsegment, String.toList_injective hrole⟩

/-! ## The invariant -/

/-- The grant of the container names this subject. -/
def Knows (cfg : Config) (log : List Effect) (id sub : String) : Prop :=
  ∃ requester role record, .requested id requester role ∈ log ∧ .granted id record ∈ log ∧
    sub = subjectOf cfg.agentDid requester role

/-- What the log says of requests, grants and tokens. -/
structure Logged (cfg : Config) (log : List Effect) : Prop where
  names : ∀ id requester requester' role role', .requested id requester role ∈ log →
    .requested id requester' role' ∈ log → requester = requester' ∧ role = role'
  roles : ∀ id requester role, .requested id requester role ∈ log → ':' ∉ role.toList
  segments : ∀ id id' requester requester' role, .requested id requester role ∈ log →
    .requested id' requester' role ∈ log → requester ≠ requester' →
    lastSegment requester ≠ lastSegment requester'
  granted : ∀ id record, .granted id record ∈ log → ∃ requester role,
    .requested id requester role ∈ log ∧ Names record (subjectOf cfg.agentDid requester role)
  minted : ∀ nonce sub id, .minted nonce sub id ∈ log →
    .associated nonce id ∈ log ∧ Knows cfg log id sub

/-- The nonce that a request has used. -/
def Pending.nonce : Pending → Option String
  | .scan _ _ nonce _ | .check _ _ nonce _ _ | .create _ nonce _ _ => some nonce
  | _ => none

/-- What is known of the droplet of a request. -/
def Holds (cfg : Config) (log : List Effect) : Pending → Prop
  | .mkdir p | .createRecord p => .requested p.name p.requesterDid p.vm.role ∈ log
  | .scan _ actx nonce droplet | .check _ actx nonce droplet _ =>
    actx = lastSegment cfg.agentDid ∧ .associated nonce droplet.id ∈ log ∧
      Knows cfg log droplet.id (subject (lastSegment cfg.agentDid) droplet.tags)
  | .create _ nonce sub id => .associated nonce id ∈ log ∧ Knows cfg log id sub
  | _ => True

/-- The nonces that requests have used, or that tokens were minted for. -/
def usedNonces (pending : List Pending) (log : List Effect) : List String :=
  pending.filterMap Pending.nonce ++ log.filterMap Effect.mintedFor

structure Inv (cfg : Config) (s : Identities) : Prop where
  logged : Logged cfg s.log
  droplets : ∀ id droplet, s.droplets.lookup id = some droplet → droplet.id = id ∧
    Knows cfg s.log droplet.id (subject (lastSegment cfg.agentDid) droplet.tags)
  nonces : ∀ nonce id, s.nonces.lookup nonce = some id →
    .associated nonce id ∈ s.log ∧ nonce ∉ usedNonces s.pending s.log
  tokens : ∀ token payload nonce, (token, payload) ∈ s.tokens → payload.nonce = some nonce →
    payload.aud = audienceOf (lastSegment cfg.agentDid)
  holds : ∀ p ∈ s.pending, Holds cfg s.log p
  used : (usedNonces s.pending s.log).Nodup

theorem inv_start (cfg : Config) : Inv cfg start :=
  ⟨⟨nofun, nofun, nofun, nofun, nofun⟩, nofun, nofun, nofun, nofun, .nil⟩

section
variable {cfg : Config} {droplets : List (String × LocalDroplet)} {nonces : List (String × String)}
  {tokens : List (String × Payload)} {pending : List Pending} {log : List Effect}
  {p q : Pending} {e : Effect} {id sub : String}

theorem Knows.append (h : Knows cfg log id sub) (effects : List Effect) :
    Knows cfg (log ++ effects) id sub := by
  obtain ⟨requester, role, record, hrequested, hgranted, heq⟩ := h
  exact ⟨requester, role, record, List.mem_append_left _ hrequested,
    List.mem_append_left _ hgranted, heq⟩

theorem Holds.append (h : Holds cfg log p) (effects : List Effect) :
    Holds cfg (log ++ effects) p := by
  cases p with
  | mkdir p => exact List.mem_append_left _ h
  | createRecord p => exact List.mem_append_left _ h
  | scan r actx nonce droplet =>
    exact ⟨h.1, List.mem_append_left _ h.2.1, h.2.2.append _⟩
  | check r actx nonce droplet key =>
    exact ⟨h.1, List.mem_append_left _ h.2.1, h.2.2.append _⟩
  | create actx nonce sub id => exact ⟨List.mem_append_left _ h.1, h.2.append _⟩
  | _ => exact h

/-! ## Logs -/

theorem used_append (h : e.mintedFor = none) :
    usedNonces pending (log ++ [e]) = usedNonces pending log := by
  rw [usedNonces, List.filterMap_append, List.filterMap_cons_none h, List.filterMap_nil,
    List.append_nil, usedNonces]

/-- An entry that is no token. -/
theorem Inv.entry (h : Inv cfg ⟨droplets, nonces, tokens, pending, log⟩)
    (he : e.mintedFor = none) (hlogged : Logged cfg (log ++ [e])) :
    Inv cfg ⟨droplets, nonces, tokens, pending, log ++ [e]⟩ where
  logged := hlogged
  droplets id droplet hlookup :=
    (h.droplets id droplet hlookup).imp_right fun hknows => hknows.append _
  nonces nonce id hlookup := by
    obtain ⟨hmem, hnot⟩ := h.nonces nonce id hlookup
    exact ⟨List.mem_append_left _ hmem, by rwa [used_append he]⟩
  tokens := h.tokens
  holds p hp := (h.holds p hp).append _
  used := by
    rw [used_append he]
    exact h.used

/-- An entry that is no request, grant or token. -/
theorem Logged.append (h : Logged cfg log) (hrequested : ∀ id requester role,
      e ≠ .requested id requester role) (hgranted : ∀ id record, e ≠ .granted id record)
    (hminted : ∀ nonce sub id, e = .minted nonce sub id →
      .associated nonce id ∈ log ∧ Knows cfg log id sub) : Logged cfg (log ++ [e]) := by
  have hreq {id requester role} : .requested id requester role ∈ log ++ [e] ↔
      .requested id requester role ∈ log :=
    List.mem_append.trans (or_iff_left fun h => hrequested _ _ _ (List.mem_singleton.1 h).symm)
  refine ⟨?_, ?_, ?_, ?_, ?_⟩
  · simpa only [hreq] using h.names
  · simpa only [hreq] using h.roles
  · simpa only [hreq] using h.segments
  · intro id record hmem
    rcases List.mem_append.1 hmem with hmem | hmem
    · simpa only [hreq] using h.granted id record hmem
    · exact absurd (List.mem_singleton.1 hmem).symm (hgranted _ _)
  · intro nonce sub id hmem
    have hknown : .associated nonce id ∈ log ∧ Knows cfg log id sub := by
      rcases List.mem_append.1 hmem with hmem | hmem
      · exact h.minted nonce sub id hmem
      · exact hminted _ _ _ (List.mem_singleton.1 hmem).symm
    exact ⟨List.mem_append_left _ hknown.1, hknown.2.append _⟩

/-- A provision is asked for, under a new container name. -/
theorem Logged.requested (h : Logged cfg log) {p : Provision} (hrole : ':' ∉ p.vm.role.toList)
    (hname : ∀ requester role, .requested p.name requester role ∉ log)
    (hrequester : ∀ name requester, requester ≠ p.requesterDid →
      .requested name requester p.vm.role ∈ log →
      lastSegment requester ≠ lastSegment p.requesterDid) :
    Logged cfg (log ++ [.requested p.name p.requesterDid p.vm.role]) := by
  let effects : List Effect := [.requested p.name p.requesterDid p.vm.role]
  change Logged cfg (log ++ effects)
  have hreq {id requester role} : .requested id requester role ∈ log ++ effects ↔
      .requested id requester role ∈ log ∨
        id = p.name ∧ requester = p.requesterDid ∧ role = p.vm.role := by
    simp [effects]
  refine ⟨?_, ?_, ?_, ?_, ?_⟩
  · intro id requester requester' role role' hmem hmem'
    rcases hreq.1 hmem with hold | ⟨hid, hr, hrole⟩ <;>
      rcases hreq.1 hmem' with hold' | ⟨hid', hr', hrole'⟩
    · exact h.names id _ _ _ _ hold hold'
    · exact absurd (hid' ▸ hold) (hname _ _)
    · exact absurd (hid ▸ hold') (hname _ _)
    · exact ⟨hr.trans hr'.symm, hrole.trans hrole'.symm⟩
  · intro id requester role hmem
    rcases hreq.1 hmem with hold | ⟨-, -, rfl⟩
    · exact h.roles id requester role hold
    · exact hrole
  · intro id id' requester requester' role hmem hmem' hne
    rcases hreq.1 hmem with hold | ⟨-, hr, hρ⟩ <;>
      rcases hreq.1 hmem' with hold' | ⟨-, hr', hρ'⟩
    · exact h.segments id id' _ _ role hold hold' hne
    · subst hr' hρ'
      exact hrequester _ _ hne hold
    · subst hr hρ
      exact (hrequester _ _ hne.symm hold').symm
    · exact absurd (hr.trans hr'.symm) hne
  · intro id record hmem
    have hold : .granted id record ∈ log := by simpa [effects] using hmem
    obtain ⟨requester, role, hrequested, hnames⟩ := h.granted id record hold
    exact ⟨requester, role, List.mem_append_left _ hrequested, hnames⟩
  · intro nonce sub id hmem
    have hold : .minted nonce sub id ∈ log := by simpa [effects] using hmem
    exact ⟨List.mem_append_left _ (h.minted nonce sub id hold).1,
      (h.minted nonce sub id hold).2.append _⟩

theorem names_rbacRecord (p : Provision) : Names (rbacRecord cfg p.vm p.requesterDid)
    (subjectOf cfg.agentDid p.requesterDid p.vm.role) := rfl

/-- The grant of a provision that was asked for. -/
theorem Logged.grant (h : Logged cfg log) {p : Provision}
    (hp : .requested p.name p.requesterDid p.vm.role ∈ log) :
    Logged cfg (log ++ [.granted p.name (rbacRecord cfg p.vm p.requesterDid)]) := by
  let effects : List Effect := [.granted p.name (rbacRecord cfg p.vm p.requesterDid)]
  change Logged cfg (log ++ effects)
  have hreq {id requester role} : .requested id requester role ∈ log ++ effects ↔
      .requested id requester role ∈ log := by
    simp [effects]
  refine ⟨?_, ?_, ?_, ?_, ?_⟩
  · simpa only [hreq] using h.names
  · simpa only [hreq] using h.roles
  · simpa only [hreq] using h.segments
  · intro id record hmem
    have hmem : .granted id record ∈ log ∨ id = p.name ∧
        record = rbacRecord cfg p.vm p.requesterDid := by
      simpa [effects] using hmem
    simp only [hreq]
    rcases hmem with hold | ⟨rfl, rfl⟩
    · exact h.granted id record hold
    · exact ⟨_, _, hp, names_rbacRecord p⟩
  · intro nonce sub id hmem
    have hold : .minted nonce sub id ∈ log := by simpa [effects] using hmem
    exact ⟨List.mem_append_left _ (h.minted nonce sub id hold).1,
      (h.minted nonce sub id hold).2.append _⟩

/-! ## Requests -/

theorem used_cons (hp : p.nonce = none) :
    usedNonces (p :: pending) log = usedNonces pending log := by
  rw [usedNonces, List.filterMap_cons_none hp, usedNonces]

theorem used_cons_some {nonce : String} (hp : p.nonce = some nonce) :
    usedNonces (p :: pending) log = nonce :: usedNonces pending log := by
  rw [usedNonces, List.filterMap_cons_some hp, List.cons_append, usedNonces]

theorem Inv.perm {pending' : List Pending} (h : Inv cfg ⟨droplets, nonces, tokens, pending, log⟩)
    (hperm : pending'.Perm pending) : Inv cfg ⟨droplets, nonces, tokens, pending', log⟩ := by
  have hused : (usedNonces pending' log).Perm (usedNonces pending log) :=
    (hperm.filterMap _).append_right _
  exact ⟨h.logged, h.droplets, fun nonce id hlookup => (h.nonces nonce id hlookup).imp_right
    fun hnot hmem => hnot (hused.mem_iff.1 hmem), h.tokens,
    fun p hp => h.holds p (hperm.mem_iff.1 hp), hused.nodup_iff.2 h.used⟩

/-- A request ends. -/
theorem Inv.rest (h : Inv cfg ⟨droplets, nonces, tokens, p :: pending, log⟩) :
    Inv cfg ⟨droplets, nonces, tokens, pending, log⟩ := by
  have hused : (usedNonces pending log).Sublist (usedNonces (p :: pending) log) :=
    ((List.sublist_cons_self _ _).filterMap _).append_right _
  exact ⟨h.logged, h.droplets, fun nonce id hlookup => (h.nonces nonce id hlookup).imp_right
    fun hnot hmem => hnot (hused.mem hmem), h.tokens,
    fun p hp => h.holds p (List.mem_cons_of_mem _ hp), h.used.sublist hused⟩

/-- A request waits, without a nonce. -/
theorem Inv.add (h : Inv cfg ⟨droplets, nonces, tokens, pending, log⟩) (hq : q.nonce = none)
    (hholds : Holds cfg log q) : Inv cfg ⟨droplets, nonces, tokens, q :: pending, log⟩ where
  logged := h.logged
  droplets := h.droplets
  nonces nonce id hlookup := by
    rw [used_cons hq]
    exact h.nonces nonce id hlookup
  tokens := h.tokens
  holds := List.forall_mem_cons.2 ⟨hholds, h.holds⟩
  used := by
    rw [used_cons hq]
    exact h.used

/-- A request goes on with its nonce. -/
theorem Inv.goOn (h : Inv cfg ⟨droplets, nonces, tokens, p :: pending, log⟩) (hq : q.nonce = p.nonce)
    (hholds : Holds cfg log q) : Inv cfg ⟨droplets, nonces, tokens, q :: pending, log⟩ := by
  have hused : usedNonces (q :: pending) log = usedNonces (p :: pending) log := by
    simp only [usedNonces, List.filterMap_cons, hq]
  exact ⟨h.logged, h.droplets, fun nonce id hlookup => hused ▸ h.nonces nonce id hlookup, h.tokens,
    List.forall_mem_cons.2 ⟨hholds, fun p hp => h.holds p (List.mem_cons_of_mem _ hp)⟩,
    hused ▸ h.used⟩

/-- A request uses a nonce, which is forgotten. -/
theorem Inv.take (h : Inv cfg ⟨droplets, nonces, tokens, pending, log⟩) {nonce id : String}
    (hnonce : nonces.lookup nonce = some id) (hq : q.nonce = some nonce)
    (hholds : Holds cfg log q) :
    Inv cfg ⟨droplets, erase nonce nonces, tokens, q :: pending, log⟩ where
  logged := h.logged
  droplets := h.droplets
  nonces nonce' id' hlookup := by
    rw [used_cons_some hq]
    dsimp only at hlookup
    rw [lookup_erase] at hlookup
    split_ifs at hlookup with hne
    obtain ⟨hmem, hnot⟩ := h.nonces nonce' id' hlookup
    exact ⟨hmem, fun hused => (List.mem_cons.1 hused).elim hne hnot⟩
  tokens := h.tokens
  holds := List.forall_mem_cons.2 ⟨hholds, h.holds⟩
  used := by
    rw [used_cons_some hq]
    exact List.nodup_cons.2 ⟨(h.nonces nonce id hnonce).2, h.used⟩

/-! ## Droplets, nonces and tokens -/

theorem Inv.eraseDroplet (h : Inv cfg ⟨droplets, nonces, tokens, pending, log⟩) (name : String) :
    Inv cfg ⟨erase name droplets, nonces, tokens, pending, log⟩ :=
  { h with
    droplets := fun id droplet hlookup => by
      dsimp only at hlookup
      rw [lookup_erase] at hlookup
      split_ifs at hlookup
      exact h.droplets id droplet hlookup }

theorem Inv.eraseNonce (h : Inv cfg ⟨droplets, nonces, tokens, pending, log⟩) (nonce : String) :
    Inv cfg ⟨droplets, erase nonce nonces, tokens, pending, log⟩ :=
  { h with
    nonces := fun nonce' id hlookup => by
      dsimp only at hlookup
      rw [lookup_erase] at hlookup
      split_ifs at hlookup
      exact h.nonces nonce' id hlookup }

theorem Inv.setDroplet (h : Inv cfg ⟨droplets, nonces, tokens, pending, log⟩)
    (droplet : LocalDroplet)
    (hknows : Knows cfg log droplet.id (subject (lastSegment cfg.agentDid) droplet.tags)) :
    Inv cfg ⟨set droplet.id droplet droplets, nonces, tokens, pending, log⟩ :=
  { h with
    droplets := fun id droplet' hlookup => by
      dsimp only at hlookup
      rw [lookup_set] at hlookup
      split_ifs at hlookup with hid
      · obtain rfl := Option.some.inj hlookup
        exact ⟨hid.symm, hknows⟩
      · exact h.droplets id droplet' hlookup }

theorem Inv.addToken (h : Inv cfg ⟨droplets, nonces, tokens, pending, log⟩) (token : String) {payload : Payload}
    (haud : ∀ nonce, payload.nonce = some nonce →
      payload.aud = audienceOf (lastSegment cfg.agentDid)) :
    Inv cfg ⟨droplets, nonces, (token, payload) :: tokens, pending, log⟩ :=
  { h with
    tokens := fun token' payload' nonce hmem hnonce => by
      rcases List.mem_cons.1 hmem with heq | hmem
      · cases heq
        exact haud nonce hnonce
      · exact h.tokens token' payload' nonce hmem hnonce }

/-- A new nonce is associated with a droplet. -/
theorem Inv.setNonce (h : Inv cfg ⟨droplets, nonces, tokens, pending, log⟩) {nonce name : String} (hmem : .associated nonce name ∈ log)
    (hnew : nonce ∉ usedNonces pending log) :
    Inv cfg ⟨droplets, set nonce name nonces, tokens, pending, log⟩ :=
  { h with
    nonces := fun nonce' id hlookup => by
      dsimp only at hlookup
      rw [lookup_set] at hlookup
      split_ifs at hlookup with heq
      · obtain rfl := Option.some.inj hlookup
        exact ⟨heq ▸ hmem, heq ▸ hnew⟩
      · exact h.nonces nonce' id hlookup }

/-- A nonce that was used has been associated. -/
theorem Inv.used_associated (h : Inv cfg ⟨droplets, nonces, tokens, pending, log⟩) {nonce : String}
    (hmem : nonce ∈ usedNonces pending log) : ∃ name, .associated nonce name ∈ log := by
  rcases List.mem_append.1 hmem with hmem | hmem
  · obtain ⟨p, hp, hnonce⟩ := List.mem_filterMap.1 hmem
    have hholds := h.holds p hp
    cases p with
    | scan | check =>
      obtain rfl := Option.some.inj hnonce
      exact ⟨_, hholds.2.1⟩
    | create =>
      obtain rfl := Option.some.inj hnonce
      exact ⟨_, hholds.1⟩
    | _ => cases hnonce
  · obtain ⟨e, he, hnonce⟩ := List.mem_filterMap.1 hmem
    cases e with
    | minted nonce' sub id =>
      obtain rfl := Option.some.inj hnonce
      exact ⟨id, (h.logged.minted _ _ _ he).1⟩
    | _ => cases hnonce

/-- The token of a droplet is minted. -/
theorem Inv.mint (h : Inv cfg ⟨droplets, nonces, tokens, p :: pending, log⟩) {nonce : String}
    (hp : p.nonce = some nonce) (hassociated : .associated nonce id ∈ log)
    (hknows : Knows cfg log id sub) :
    Inv cfg ⟨droplets, nonces, tokens, pending, log ++ [.minted nonce sub id]⟩ := by
  have hused : (usedNonces pending (log ++ [.minted nonce sub id])).Perm
      (usedNonces (p :: pending) log) := by
    rw [used_cons_some hp, usedNonces, List.filterMap_append, ← List.append_assoc]
    exact List.perm_append_singleton _ _
  have hlogged : Logged cfg (log ++ [.minted nonce sub id]) := by
    refine h.logged.append nofun nofun fun nonce' sub' id' heq => ?_
    cases heq
    exact ⟨hassociated, hknows⟩
  refine ⟨hlogged, fun id droplet hlookup => (h.droplets id droplet hlookup).imp_right
    fun hknows => hknows.append _, fun nonce' id' hlookup => ?_, h.tokens,
    fun q hq => (h.holds q (List.mem_cons_of_mem _ hq)).append _, hused.nodup_iff.2 h.used⟩
  obtain ⟨hmem, hnot⟩ := h.nonces nonce' id' hlookup
  exact ⟨List.mem_append_left _ hmem, fun hmem => hnot (hused.mem_iff.1 hmem)⟩

end

/-! ## Answers -/

theorem idxOf?_append_cons {c : Char} {cs ds : List Char} (h : c ∉ cs) :
    (cs ++ c :: ds).idxOf? c = some cs.length := by
  induction cs with
  | nil => simp [List.idxOf?_cons]
  | cons d cs ih =>
    obtain ⟨hd, hcs⟩ := not_or.1 (List.mem_cons.not.1 h)
    rw [List.cons_append, List.idxOf?_cons, if_neg (by simpa using Ne.symm hd), ih hcs]
    rfl

theorem toList_audienceOf (segment : String) : (audienceOf segment).toList =
    "api://".toList ++ ("DigitalOcean".toList ++ '?' :: ("actx=".toList ++ segment.toList)) := by
  have hlit : "api://DigitalOcean?actx=".toList =
      "api://".toList ++ ("DigitalOcean".toList ++ '?' :: "actx=".toList) := by decide
  unfold audienceOf
  simp only [String.toList_append, hlit, List.append_assoc, List.cons_append]

theorem drop_scheme (rest : List Char) : ("api://".toList ++ rest).drop 6 = rest := rfl

/-- A provisioning token names its api as it is written. -/
theorem api_of_audienceOf {segment actx api : String}
    (h : parseAudience (audienceOf segment) = .ok (actx, api)) : api = "DigitalOcean" := by
  obtain ⟨rest, hrest⟩ : ∃ rest, rest =
    "DigitalOcean".toList ++ '?' :: ("actx=".toList ++ segment.toList) := ⟨_, rfl⟩
  have hindex : rest.idxOf? '?' = some 12 := hrest ▸ idxOf?_append_cons (by decide)
  have hne : rest ≠ [] := by simp [hrest]
  have htake : rest.take 12 = "DigitalOcean".toList := by
    rw [hrest]
    exact List.take_left' (by decide)
  unfold parseAudience at h
  rw [toList_audienceOf, ← hrest, if_pos (List.isPrefixOf_iff_prefix.2 (List.prefix_append _ _)),
    drop_scheme] at h
  simp only [if_neg hne, hindex, htake] at h
  split at h
  · cases h
  · cases h
  · exact (Prod.mk.inj (Except.ok.inj h)).2.symm.trans String.ofList_toList

theorem audienceOf_injective : Function.Injective audienceOf := by
  intro actx actx' h
  unfold audienceOf at h
  have hlist := congrArg String.toList h
  simp only [String.toList_append] at hlist
  exact String.toList_injective (List.append_cancel_left hlist)

theorem checkAudience_eq_ok {payload : Payload} {segment actx : String}
    (haud : payload.aud = audienceOf segment) (h : checkAudience payload = .ok actx) :
    actx = segment := by
  have hlit : "api://" ++ "DigitalOcean" ++ "?actx=" = "api://DigitalOcean?actx=" := by decide
  rw [checkAudience, haud] at h
  split at h
  · cases h
  · next actx' api hparse =>
    split_ifs at h with heq
    obtain rfl := Except.ok.inj h
    rw [api_of_audienceOf hparse, hlit] at heq
    exact (audienceOf_injective heq).symm

/-- What an answer leaves, when these other requests are pending. -/
def Result.after (r : Result) (s : Identities) (pending : List Pending) : Identities :=
  ⟨r.droplets, r.nonces, r.tokens, r.next.toList ++ pending, s.log ++ r.effects⟩

section
variable {cfg : Config} {s : Identities} {pending : List Pending} {p q : Pending} {e : Effect}

/-- A provision that ends, or a request that is refused. -/
def Effect.Quiet : Effect → Prop
  | .provisioned _ | .refused _ | .invalid => True
  | _ => False

theorem Inv.quiet (h : Inv cfg s) (he : e.Quiet) : Inv cfg { s with log := s.log ++ [e] } := by
  cases e with
  | provisioned | refused | invalid =>
    exact h.entry rfl (h.logged.append nofun nofun nofun)
  | _ => cases he

theorem Inv.ends (h : Inv cfg { s with pending := pending }) (he : e.Quiet) :
    Inv cfg ((ends s e).after s pending) := h.quiet he

theorem Inv.waits (h : Inv cfg { s with pending := q :: pending }) :
    Inv cfg ((waits s q).after s pending) := by
  change Inv cfg ⟨_, _, _, _, s.log ++ []⟩
  rwa [List.append_nil]

/-- The grant of a provision is there, and its droplet. -/
theorem Inv.register (h : Inv cfg { s with pending := pending }) {p : Provision}
    (hp : .requested p.name p.requesterDid p.vm.role ∈ s.log) :
    Inv cfg ((register cfg s p).after s pending) := by
  have hgrant := h.entry rfl (h.logged.grant hp)
  have hknows : Knows cfg (s.log ++ [.granted p.name (rbacRecord cfg p.vm p.requesterDid)]) p.name
      (subject (lastSegment cfg.agentDid) (tagsOf p.requesterDid p.vm.role)) := by
    refine ⟨_, _, _, List.mem_append_left _ hp, List.mem_append_right _ (List.mem_singleton.2 rfl),
      subject_tagsOf cfg _ (h.logged.roles _ _ _ hp)⟩
  exact (hgrant.setDroplet ⟨p.name, [], _, none⟩ hknows).add
    (q := .provisioningData p) rfl trivial

theorem Inv.associate (h : Inv cfg { s with pending := pending }) {p : Provision}
    {nonce token : String} (hnew : ∀ name, .associated nonce name ∉ s.log) :
    Inv cfg ((associate cfg s p nonce token).after s pending) := by
  have hentry := h.entry (e := .associated nonce p.name) rfl (h.logged.append nofun nofun nofun)
  have hused : nonce ∉ usedNonces pending (s.log ++ [.associated nonce p.name]) := by
    rw [used_append rfl]
    intro hmem
    obtain ⟨name, hname⟩ := h.used_associated hmem
    exact hnew name hname
  have hset := hentry.setNonce (List.mem_append_right _ (List.mem_singleton.2 rfl)) hused
  exact (hset.addToken token fun _ _ => rfl).add (q := .start p) rfl trivial

/-- The address of a droplet changes. -/
theorem Inv.locate (h : Inv cfg { s with pending := pending }) {p : Provision} {address : String}
    {effects : List Effect} {next : Option Pending}
    (hlog : Inv cfg { s with pending := next.toList ++ pending, log := s.log ++ effects }) :
    Inv cfg ((locate s p address effects next).after s pending) := by
  unfold Provider.locate
  dsimp only
  split
  · exact hlog
  · next droplet hlookup =>
    obtain ⟨id, v4, tags, containerName⟩ := droplet
    obtain ⟨rfl, hknows⟩ := h.droplets _ _ hlookup
    exact hlog.setDroplet ⟨p.name, [address], tags, some p.name⟩ (hknows.append _)

/-- A nonce is used, for the droplet that it was associated with. -/
theorem Inv.useNonce (h : Inv cfg { s with pending := pending }) (r : Prove)
    (nonce : Option String) :
    Inv cfg ((useNonce s r (lastSegment cfg.agentDid) nonce).after s pending) := by
  unfold Provider.useNonce
  split
  · exact h.ends trivial
  · next nonce _ =>
    split
    · exact h.ends trivial
    · next id hid =>
      dsimp only
      split
      · exact (h.eraseNonce nonce).quiet trivial
      · next droplet hlookup =>
        split_ifs
        · exact (h.eraseNonce nonce).quiet trivial
        · obtain ⟨rfl, hknows⟩ := h.droplets _ _ hlookup
          have htake := h.take hid (q := .scan r (lastSegment cfg.agentDid) nonce droplet) rfl
            ⟨rfl, (h.nonces nonce _ hid).1, hknows⟩
          change Inv cfg ⟨_, _, _, _, s.log ++ []⟩
          rwa [List.append_nil]

/-- A provision or a request takes an answer. -/
theorem Inv.answer {i : ℕ} {a : Answer} {r : Result}
    (h : Inv cfg { s with pending := p :: pending }) (hp : s.pending[i]? = some p)
    (hkept : Kept s (.answer i a)) (hr : answer cfg s p a = some r) :
    Inv cfg (r.after s pending) := by
  have hhead := h.holds p List.mem_cons_self
  unfold Provider.answer at hr
  split at hr
  · -- mkdir
    obtain rfl := Option.some.inj hr
    exact (h.rest.add (q := .createRecord _) rfl hhead).waits
  · -- createRecord
    obtain rfl := Option.some.inj hr
    exact h.rest.register hhead
  · -- provisioningData
    obtain rfl := Option.some.inj hr
    exact h.rest.associate (hkept.nonces i _ _ rfl)
  · -- ip
    obtain rfl := Option.some.inj hr
    refine h.rest.locate ?_
    rw [List.append_nil]
    exact h.rest.add rfl trivial
  · -- started
    obtain rfl := Option.some.inj hr
    exact h.rest.locate (h.rest.quiet trivial)
  iterate 4
    · -- A provision fails.
      obtain rfl := Option.some.inj hr
      exact h.rest.ends trivial
  · -- validate
    split at hr
    · obtain rfl := Option.some.inj hr
      exact h.rest.ends trivial
    · obtain rfl := Option.some.inj hr
      exact (h.rest.add (q := .validateAgain _) rfl trivial).waits
  · -- validateAgain
    next request payload =>
    split at hr
    · obtain rfl := Option.some.inj hr
      exact h.rest.ends trivial
    · next actx hactx =>
      obtain rfl := Option.some.inj hr
      cases hnonce : payload.nonce with
      | none => exact h.rest.ends trivial
      | some nonce =>
        have hmem := hkept.tokens i payload rfl request (.inr hp)
        rw [checkAudience_eq_ok (h.tokens _ _ nonce hmem hnonce) hactx]
        exact h.rest.useNonce request (some nonce)
  · -- scan
    obtain rfl := Option.some.inj hr
    exact (h.goOn (q := .check _ _ _ _ _) rfl hhead).waits
  · -- check
    obtain ⟨rfl, hassociated, hknows⟩ := hhead
    split_ifs at hr
    · obtain rfl := Option.some.inj hr
      exact (h.goOn (q := .create _ _ _ _) rfl ⟨hassociated, hknows⟩).waits
    · obtain rfl := Option.some.inj hr
      exact h.rest.ends trivial
  · obtain rfl := Option.some.inj hr
    exact h.rest.ends trivial
  · -- create
    obtain rfl := Option.some.inj hr
    exact (h.mint rfl hhead.1 hhead.2).addToken _ nofun
  iterate 3
    · -- A request is refused.
      obtain rfl := Option.some.inj hr
      exact h.rest.ends trivial
  · cases hr

end

/-! ## Runs -/

theorem inv_step {cfg : Config} {s : Identities} {e : Event} (h : Inv cfg s) (hkept : Kept s e)
    (hcareful : Careful s e) : Inv cfg (step cfg s e) := by
  cases e with
  | provision p =>
    have hlogged := h.logged.requested (hcareful.role p rfl) (hcareful.name p rfl)
      (hcareful.requester p rfl)
    exact (h.entry rfl hlogged).add (q := .mkdir p) rfl
      (List.mem_append_right _ (List.mem_singleton.2 rfl))
  | prove r => exact h.add rfl trivial
  | destroy name => exact h.eraseDroplet name
  | answer i a =>
    rw [step, resume]
    split
    · exact h
    · next p hp =>
      split
      · exact h
      · next r hr =>
        obtain ⟨hi, rfl⟩ := List.getElem?_eq_some_iff.1 hp
        exact (h.perm (List.getElem_cons_eraseIdx_perm hi)).answer hp hkept hr

theorem Inv.identity {cfg : Config} {s : Identities} (h : Inv cfg s) : Identity s where
  agrees nonce sub id hmem := by
    obtain ⟨-, requester, role, record, hrequested, hgranted, rfl⟩ := h.logged.minted _ _ _ hmem
    refine ⟨⟨record, hgranted⟩, fun record' hrecord' => ?_⟩
    obtain ⟨requester', role', hrequested', hnames⟩ := h.logged.granted id record' hrecord'
    obtain ⟨rfl, rfl⟩ := h.logged.names _ _ _ _ _ hrequested hrequested'
    exact hnames
  apart nonce nonce' sub sub' id id' requester requester' role role' hmem hmem' hr hr' hne heq := by
    obtain ⟨-, _, _, -, hrequested, -, rfl⟩ := h.logged.minted _ _ _ hmem
    obtain ⟨-, _, _, -, hrequested', -, rfl⟩ := h.logged.minted _ _ _ hmem'
    obtain ⟨rfl, rfl⟩ := h.logged.names _ _ _ _ _ hrequested hr
    obtain ⟨rfl, rfl⟩ := h.logged.names _ _ _ _ _ hrequested' hr'
    obtain ⟨hsegment, rfl⟩ := subjectOf_inj heq
    exact h.logged.segments _ _ _ _ _ hr hr' hne hsegment
  once := (List.nodup_append.1 h.used).2.1
  own nonce sub id hmem := (h.logged.minted nonce sub id hmem).1

/-- As long as the steps are careful, tokens and grants agree. -/
theorem identity_of_careful (cfg : Config) (es : List Event)
    (hes : Along (step cfg) (fun s e => Kept s e ∧ Careful s e) start es) :
    Along (step cfg) (fun s e => Identity (step cfg s e)) start es := by
  refine along_of_inv (fun s e hinv ⟨hkept, hcareful⟩ => ?_) (inv_start cfg) hes
  have hnext := inv_step hinv hkept hcareful
  exact ⟨hnext.identity, hnext⟩

/-! ## A VM that proves itself -/

section
variable (cfg : Config) (p : Provision) (ref : StrongRef)
  (nonce token address sig publicKey token' : String)

def provisioningPayload : Payload :=
  ⟨audienceOf (lastSegment cfg.agentDid),
    "actx:" ++ lastSegment cfg.agentDid ++ ":role:provisioning:nonce:" ++ nonce, some nonce, none⟩

/-- A VM is provisioned, up to its address. -/
def bootEvents : List Event :=
  [.provision p, .answer 0 (.mkdir (.ok ())), .answer 0 (.createRecord (.ok ref)),
    .answer 0 (.provisioningData (.ok (nonce, token))), .answer 0 (.ip address)]

def booted : Identities :=
  ⟨[(p.name, ⟨p.name, [address], tagsOf p.requesterDid p.vm.role, some p.name⟩)],
    [(nonce, p.name)], [(token, provisioningPayload cfg nonce)], [.start p],
    [.requested p.name p.requesterDid p.vm.role,
      .granted p.name (rbacRecord cfg p.vm p.requesterDid), .associated nonce p.name]⟩

/-- It proves itself. -/
def proveEvents : List Event :=
  [.prove ⟨token, sig, 22⟩, .answer 0 (.validated (.ok (provisioningPayload cfg nonce))),
    .answer 0 (.validated (.ok (provisioningPayload cfg nonce))), .answer 0 (.key (.ok publicKey)),
    .answer 0 (.checked (.ok true)), .answer 0 (.token (.ok token'))]

theorem foldl_bootEvents : (bootEvents p ref nonce token address).foldl (step cfg) start =
    booted cfg p nonce token address := by
  simp [bootEvents, booted, provisioningPayload, step, resume, answer, waits, register, associate,
    locate, start, AssocList.set]

theorem kept_of_ne {s : Identities} {e : Event}
    (hnonce : ∀ i nonce token, e ≠ .answer i (.provisioningData (.ok (nonce, token))))
    (htoken : ∀ i payload, e ≠ .answer i (.validated (.ok payload))) : Kept s e :=
  ⟨fun i nonce token heq => absurd heq (hnonce i nonce token),
    fun i payload heq => absurd heq (htoken i payload)⟩

theorem careful_of_ne {s : Identities} {e : Event} (h : ∀ p, e ≠ .provision p) : Careful s e :=
  ⟨fun p heq => absurd heq (h p), fun p heq => absurd heq (h p), fun p heq => absurd heq (h p)⟩

theorem kept_bootEvents : Along (step cfg) Kept start (bootEvents p ref nonce token address) := by
  refine ⟨kept_of_ne nofun nofun, kept_of_ne nofun nofun, kept_of_ne nofun nofun, ⟨?_, nofun⟩,
    kept_of_ne nofun nofun, trivial⟩
  rintro i nonce token - name
  simp [step, resume, answer, waits, register, start]

theorem careful_bootEvents (hrole : ':' ∉ p.vm.role.toList) :
    Along (step cfg) Careful start (bootEvents p ref nonce token address) :=
  ⟨⟨fun _ heq => Event.provision.inj heq ▸ hrole, nofun, nofun⟩, careful_of_ne nofun,
    careful_of_ne nofun, careful_of_ne nofun, careful_of_ne nofun, trivial⟩

theorem careful_proveEvents {s : Identities} :
    Along (step cfg) Careful s (proveEvents cfg nonce token sig publicKey token') :=
  ⟨careful_of_ne nofun, careful_of_ne nofun, careful_of_ne nofun, careful_of_ne nofun,
    careful_of_ne nofun, careful_of_ne nofun, trivial⟩

variable {cfg nonce}

theorem kept_proveEvents
    (haud : checkAudience (provisioningPayload cfg nonce) = .ok (lastSegment cfg.agentDid)) :
    Along (step cfg) Kept (booted cfg p nonce token address)
      (proveEvents cfg nonce token sig publicKey token') := by
  have hbind : (Except.ok (provisioningPayload cfg nonce)).bind checkAudience =
    .ok (lastSegment cfg.agentDid) := haud
  refine ⟨kept_of_ne nofun nofun, ⟨nofun, ?_⟩, ⟨nofun, ?_⟩, kept_of_ne nofun nofun,
    kept_of_ne nofun nofun, kept_of_ne nofun nofun, trivial⟩
  · rintro i payload ⟨⟩ r
    simp only [booted, step]
    rintro (⟨⟨⟩⟩ | ⟨⟨⟩⟩)
    exact List.mem_cons_self
  · rintro i payload ⟨⟩ r
    simp [booted, step, resume, answer, hbind, waits]
    rintro rfl
    rfl

theorem log_proveEvents (hnonce : nonce ≠ "")
    (haud : checkAudience (provisioningPayload cfg nonce) = .ok (lastSegment cfg.agentDid)) :
    ((proveEvents cfg nonce token sig publicKey token').foldl (step cfg)
        (booted cfg p nonce token address)).log = (booted cfg p nonce token address).log ++
      [.minted nonce (subject (lastSegment cfg.agentDid) (tagsOf p.requesterDid p.vm.role))
        p.name] := by
  have hbind : (Except.ok (provisioningPayload cfg nonce)).bind checkAudience =
    .ok (lastSegment cfg.agentDid) := haud
  have hpayload : (provisioningPayload cfg nonce).nonce = some nonce := rfl
  simp [proveEvents, booted, step, resume, answer, haud, hbind, hpayload, waits, useNonce,
    Option.filter, hnonce, mint]

end

def sampleProvision (role : String) : Provision :=
  ⟨⟨role, none, some "at://did:plc:alice/com.example.vm/1"⟩, "did:plc:alice", "0f8fad5b"⟩

def sampleGrant : StrongRef := ⟨"at://did:plc:bob/com.fedproxy.rbac/1", "bafyrei"⟩

/-- Alice's VM is provisioned for a role and proves itself. -/
def sampleRun (role : String) : List Event :=
  bootEvents (sampleProvision role) sampleGrant "00ff" "e30.e30.c2ln" "172.17.0.2" ++
    proveEvents sampleConfig "00ff" "e30.e30.c2ln" "U1NIU0lH" "ssh-ed25519 AAAA" "e30.e30.dG9r"

theorem checkAudience_sample : checkAudience (provisioningPayload sampleConfig "00ff") =
    .ok (lastSegment sampleConfig.agentDid) := by decide +kernel

theorem kept_sampleRun (role : String) : Along (step sampleConfig) Kept start (sampleRun role) := by
  refine along_append.2 ⟨kept_bootEvents _ _ _ _ _ _, ?_⟩
  rw [foldl_bootEvents]
  exact kept_proveEvents _ _ _ _ _ _ checkAudience_sample

theorem identity_sample : Along (step sampleConfig)
    (fun s e => Identity (step sampleConfig s e)) start (sampleRun "web") :=
  identity_of_careful sampleConfig _ (along_and.2 ⟨kept_sampleRun "web", along_append.2
    ⟨careful_bootEvents _ _ _ _ _ _ (by decide), careful_proveEvents _ _ _ _ _ _⟩⟩)

/-- The role is not one segment: its tag does not count. -/
theorem identity_colon : ¬ ∀ cfg es, Along (step cfg) Kept start es →
    Along (step cfg) (fun s e => Identity (step cfg s e)) start es := by
  intro hall
  have hrun := (along_append.1 (hall sampleConfig _ (kept_sampleRun "web:admin"))).2
  rw [foldl_bootEvents] at hrun
  obtain ⟨-, -, -, -, -, hlast, -⟩ := hrun
  have hlog := log_proveEvents (sampleProvision "web:admin") "e30.e30.c2ln" "172.17.0.2" "U1NIU0lH"
    "ssh-ed25519 AAAA" "e30.e30.dG9r" (by decide : "00ff" ≠ "") checkAudience_sample
  have hlast : Identity ((proveEvents sampleConfig "00ff" "e30.e30.c2ln" "U1NIU0lH"
    "ssh-ed25519 AAAA" "e30.e30.dG9r").foldl (step sampleConfig)
      (booted sampleConfig (sampleProvision "web:admin") "00ff" "e30.e30.c2ln" "172.17.0.2")) := hlast
  have hnames := (hlast.agrees "00ff" (subject (lastSegment sampleConfig.agentDid)
    (tagsOf "did:plc:alice" "web:admin")) (sampleProvision "web:admin").name ?_).2
      (rbacRecord sampleConfig (sampleProvision "web:admin").vm "did:plc:alice") ?_
  · have hne : subjectOf "did:plc:bob" "did:plc:alice" "web:admin" ≠
      subject (lastSegment sampleConfig.agentDid) (tagsOf "did:plc:alice" "web:admin") := by
      decide +kernel
    exact hne (List.cons.inj hnames).1
  · exact hlog ▸ List.mem_append_right _ (List.mem_singleton.2 rfl)
  · exact hlog ▸ List.mem_append_left _ (List.mem_cons_of_mem _ List.mem_cons_self)

end ComputeContract.Provider
