import ComputeContract.Market.Bidder

/-!
# Machines of the bidder

No machine of the bidder is lost or destroyed twice, as long as every machine has an id, its
receipt is created, an accept is not settled again while its machine is there, and a receipt is
not deleted while its machine is being destroyed.

* `Inv`: who holds the id of a machine: the request that awaits its receipt or an active contract;
* `tracked_of_careful`: the property of runs.
-/

namespace ComputeContract.Bidder

open AssocList Market

/-- The step keeps to what the bidder does not check. -/
structure Careful (s : State) (e : Event) : Prop where
  /-- A machine has an id that is tracked. -/
  id : ∀ i id, e = .answer i (.provisioned (.ok id)) → id.tracked
  /-- The receipt of a machine is created. -/
  receipt : ∀ i err, e ≠ .answer i (.receipt (.error err))
  /-- An accept is settled while no machine is there for it, or on its way. -/
  accept : ∀ i accept issuerDid requesterDid, e = .answer i (.settled (.ok ())) →
    s.pending[i]? = some (.settle accept issuerDid requesterDid) →
    (∀ issuerDid requesterDid, .provision accept issuerDid requesterDid ∉ s.pending) ∧
      ∀ id, ¬ Live s.log id accept
  /-- A machine is destroyed while it is not being destroyed. -/
  delete : ∀ i receipt payload issuerDid, e = .answer i (.payload (.ok ())) →
    s.pending[i]? = some (.resolvePayload receipt payload issuerDid) →
    ∀ receipt' issuerDid' contract, .destroy receipt' issuerDid' contract ∈ s.pending →
      refKey receipt' ≠ refKey receipt

/-! ## The invariant -/

/-- The machine whose receipt the request awaits. -/
def Pending.receiving : Pending → Option (ProviderId × Ref)
  | .createReceipt accept _ _ id => some (id, accept)
  | _ => none

/-- The accept that the request provisions for. -/
def Pending.provisioning : Pending → Option Ref
  | .provision accept _ _ => some accept
  | _ => none

/-- The contract whose machine the request destroys. -/
def Pending.destroying : Pending → Option (String × ActiveContract)
  | .destroy receipt _ contract => some (refKey receipt, contract)
  | _ => none

/-- A receipt was created for the accept, under the key of the ref. -/
def CreatedFor (log : List Effect) (receipt accept : Ref) : Prop :=
  ∃ created, .receipt created accept ∈ log ∧ refKey created = refKey receipt

/-- The request was let in. -/
def Authorized (log : List Effect) : Pending → Prop
  | .resolveAccept accept issuerDid | .verifyAccept accept issuerDid _
  | .settle accept issuerDid _ | .provision accept issuerDid _ =>
    issuerDid = atUriAuthority accept.uri
  | .createReceipt accept issuerDid _ id => issuerDid = atUriAuthority accept.uri ∧ id.tracked
  | .resolveReceipt receipt _ _ => ∃ accept, CreatedFor log receipt accept
  | .resolvePayload receipt _ issuerDid | .destroy receipt issuerDid _ =>
    ∃ accept, CreatedFor log receipt accept ∧ issuerDid = (parseAtUri accept.uri).repo
  | _ => True

/-- Every machine is held once, and under what it was provisioned for. -/
structure Inv (s : State) : Prop where
  receiving_nodup : ((s.pending.filterMap Pending.receiving).map Prod.fst).Nodup
  receiving_live : ∀ x ∈ s.pending.filterMap Pending.receiving, Live s.log x.1 x.2
  receiving_free : ∀ x ∈ s.pending.filterMap Pending.receiving, ∀ key contract,
    s.activeContracts.lookup key = some contract → contract.providerId ≠ x.1
  provisioning_nodup : (s.pending.filterMap Pending.provisioning).Nodup
  provisioning_free : ∀ accept ∈ s.pending.filterMap Pending.provisioning,
    ∀ id, ¬ Live s.log id accept
  destroying_nodup : ((s.pending.filterMap Pending.destroying).map Prod.fst).Nodup
  destroying_held : ∀ x ∈ s.pending.filterMap Pending.destroying,
    s.activeContracts.lookup x.1 = some x.2
  contracts_live : ∀ key contract, s.activeContracts.lookup key = some contract →
    ∃ created accept, .receipt created accept ∈ s.log ∧ refKey created = key ∧
      Live s.log contract.providerId accept
  contracts_inj : ∀ key key' contract contract', s.activeContracts.lookup key = some contract →
    s.activeContracts.lookup key' = some contract' →
    contract.providerId = contract'.providerId → key = key'
  ids : ∀ id accept accept', .provisioned id accept ∈ s.log → .provisioned id accept' ∈ s.log →
    accept = accept'
  refs : ∀ created created' accept accept', .receipt created accept ∈ s.log →
    .receipt created' accept' ∈ s.log → refKey created = refKey created' → accept = accept'
  kept : ∀ id accept, .provisioned id accept ∈ s.log → Destroyed s.log id ∨
    (id, accept) ∈ s.pending.filterMap Pending.receiving ∨ TrackedFor s id accept
  single : ∀ accept id id', Live s.log id accept → Live s.log id' accept → id = id'
  once : ∀ id, s.log.countP (destroys id) ≤ 1
  author : ∀ id receipt issuerDid, .destroyed id receipt issuerDid ∈ s.log →
    ∃ created accept, .receipt created accept ∈ s.log ∧ refKey created = refKey receipt ∧
      .provisioned id accept ∈ s.log ∧ issuerDid = (parseAtUri accept.uri).repo
  authorized : ∀ p ∈ s.pending, Authorized s.log p

theorem inv_start : Inv start := by
  constructor <;> simp [start, Live]

theorem Inv.tracking {s : State} (h : Inv s) : Tracking s := by
  refine ⟨fun id accept hid hpending => ?_, h.single, h.once, h.author⟩
  rcases h.kept id accept hid with hdestroyed | hreceiving | htracked
  · exact .inl hdestroyed
  · obtain ⟨p, hp, hreceiving⟩ := List.mem_filterMap.1 hreceiving
    unfold Pending.receiving at hreceiving
    split at hreceiving
    · cases hreceiving
      exact absurd hp (hpending _ _ _)
    · cases hreceiving
  · exact .inr htracked

/-! ## Steps -/

section
variable {contracts : List (String × ActiveContract)} {p q : Pending} {pending pending' : List Pending}
  {log log' effects : List Effect} {id : ProviderId} {accept receipt : Ref}

theorem Authorized.mono (h : ∀ e ∈ log, e ∈ log') : Authorized log p → Authorized log' p := by
  cases p with
  | resolveReceipt receipt payload issuerDid =>
    rintro ⟨accept, created, hmem, hkey⟩
    exact ⟨accept, created, h _ hmem, hkey⟩
  | resolvePayload receipt payload issuerDid =>
    rintro ⟨accept, ⟨created, hmem, hkey⟩, hissuer⟩
    exact ⟨accept, ⟨created, h _ hmem, hkey⟩, hissuer⟩
  | destroy receipt issuerDid contract =>
    rintro ⟨accept, ⟨created, hmem, hkey⟩, hissuer⟩
    exact ⟨accept, ⟨created, h _ hmem, hkey⟩, hissuer⟩
  | _ => exact fun h => h

theorem TrackedFor.mono (h : ∀ e ∈ log, e ∈ log')
    (htracked : TrackedFor ⟨contracts, pending, log⟩ id accept) :
    TrackedFor ⟨contracts, pending', log'⟩ id accept := by
  obtain ⟨receipt, author, hreceipt, hreplied, hlookup⟩ := htracked
  exact ⟨receipt, author, h _ hreceipt, h _ hreplied, hlookup⟩

/-- The order of the requests does not matter. -/
theorem Inv.perm (h : Inv ⟨contracts, pending, log⟩) (hperm : pending.Perm pending') :
    Inv ⟨contracts, pending', log⟩ := by
  have hreceiving := hperm.filterMap Pending.receiving
  have hprovisioning := hperm.filterMap Pending.provisioning
  have hdestroying := hperm.filterMap Pending.destroying
  refine ⟨(hreceiving.map Prod.fst).nodup h.receiving_nodup, ?_, ?_, hprovisioning.nodup
    h.provisioning_nodup, ?_, (hdestroying.map Prod.fst).nodup h.destroying_nodup, ?_,
    h.contracts_live, h.contracts_inj, h.ids, h.refs, ?_, h.single, h.once, h.author, ?_⟩
  · exact fun x hx => h.receiving_live x (hreceiving.mem_iff.2 hx)
  · exact fun x hx => h.receiving_free x (hreceiving.mem_iff.2 hx)
  · exact fun x hx => h.provisioning_free x (hprovisioning.mem_iff.2 hx)
  · exact fun x hx => h.destroying_held x (hdestroying.mem_iff.2 hx)
  · intro id accept hid
    refine (h.kept id accept hid).imp_right (Or.imp_left fun hx => ?_)
    exact hreceiving.mem_iff.1 hx
  · exact fun p hp => h.authorized p (hperm.mem_iff.2 hp)

/-- A request ends that does not await a receipt. -/
theorem Inv.drop (h : Inv ⟨contracts, p :: pending, log⟩) (hp : p.receiving = none) :
    Inv ⟨contracts, pending, log⟩ := by
  have hreceiving : (p :: pending).filterMap Pending.receiving =
      pending.filterMap Pending.receiving := List.filterMap_cons_none hp
  have hsub {β : Type} (f : Pending → Option β) :
      (pending.filterMap f).Sublist ((p :: pending).filterMap f) :=
    (List.sublist_cons_self p pending).filterMap f
  refine ⟨hreceiving ▸ h.receiving_nodup, hreceiving ▸ h.receiving_live,
    hreceiving ▸ h.receiving_free, h.provisioning_nodup.sublist (hsub _), ?_,
    h.destroying_nodup.sublist ((hsub _).map _), ?_, h.contracts_live, h.contracts_inj, h.ids,
    h.refs, hreceiving ▸ h.kept, h.single, h.once, h.author, ?_⟩
  · exact fun x hx => h.provisioning_free x ((hsub _).mem hx)
  · exact fun x hx => h.destroying_held x ((hsub _).mem hx)
  · exact fun q hq => h.authorized q (List.mem_cons_of_mem _ hq)

/-- The request holds no machine and no accept. -/
structure Pending.Plain (p : Pending) : Prop where
  receiving : p.receiving = none
  provisioning : p.provisioning = none
  destroying : p.destroying = none

/-- A request goes on that holds nothing. -/
theorem Inv.add (h : Inv ⟨contracts, pending, log⟩) (hp : p.Plain) (hauthorized : Authorized log p) :
    Inv ⟨contracts, p :: pending, log⟩ := by
  have hreceiving : (p :: pending).filterMap Pending.receiving =
      pending.filterMap Pending.receiving := List.filterMap_cons_none hp.receiving
  have hprovisioning : (p :: pending).filterMap Pending.provisioning =
      pending.filterMap Pending.provisioning := List.filterMap_cons_none hp.provisioning
  have hdestroying : (p :: pending).filterMap Pending.destroying =
      pending.filterMap Pending.destroying := List.filterMap_cons_none hp.destroying
  exact ⟨hreceiving ▸ h.receiving_nodup, hreceiving ▸ h.receiving_live,
    hreceiving ▸ h.receiving_free, hprovisioning ▸ h.provisioning_nodup,
    hprovisioning ▸ h.provisioning_free, hdestroying ▸ h.destroying_nodup,
    hdestroying ▸ h.destroying_held, h.contracts_live, h.contracts_inj, h.ids, h.refs,
    hreceiving ▸ h.kept, h.single, h.once, h.author,
    List.forall_mem_cons.2 ⟨hauthorized, h.authorized⟩⟩

/-- A reply. -/
def IsReply (e : Effect) : Prop := ∃ issuerDid reply, e = .replied issuerDid reply

theorem Inv.reply (h : Inv ⟨contracts, pending, log⟩) (heffects : ∀ e ∈ effects, IsReply e) :
    Inv ⟨contracts, pending, log ++ effects⟩ := by
  have hmem {e : Effect} (he : ¬ IsReply e) : e ∈ log ++ effects ↔ e ∈ log :=
    List.mem_append.trans (or_iff_left fun hmem => he (heffects e hmem))
  have hprovisioned {id accept} : .provisioned id accept ∈ log ++ effects ↔
      .provisioned id accept ∈ log := hmem fun ⟨_, _, h⟩ => nomatch h
  have hreceipt {receipt accept} : .receipt receipt accept ∈ log ++ effects ↔
      .receipt receipt accept ∈ log := hmem fun ⟨_, _, h⟩ => nomatch h
  have hdestroyed {id} : Destroyed (log ++ effects) id ↔ Destroyed log id :=
    exists_congr fun _ => exists_congr fun _ => hmem fun ⟨_, _, h⟩ => nomatch h
  have hlive {id accept} : Live (log ++ effects) id accept ↔ Live log id accept :=
    and_congr hprovisioned (not_congr hdestroyed)
  have hsub : ∀ e ∈ log, e ∈ log ++ effects := fun e => List.mem_append_left effects
  refine ⟨h.receiving_nodup, fun x hx => hlive.2 (h.receiving_live x hx), h.receiving_free,
    h.provisioning_nodup, fun accept ha id hid => h.provisioning_free accept ha id (hlive.1 hid),
    h.destroying_nodup, h.destroying_held, fun key contract hc => ?_, h.contracts_inj,
    fun id accept accept' ha ha' => h.ids id _ _ (hprovisioned.1 ha) (hprovisioned.1 ha'),
    fun created created' _ _ hc hc' => h.refs created created' _ _ (hreceipt.1 hc) (hreceipt.1 hc'),
    fun id accept hid => ?_,
    fun accept id id' hid hid' => h.single accept id id' (hlive.1 hid) (hlive.1 hid'),
    fun id => ?_, fun id receipt issuerDid hd => ?_, fun p hp => (h.authorized p hp).mono hsub⟩
  · obtain ⟨created, accept, hcreated, hkey, hid⟩ := h.contracts_live key contract hc
    exact ⟨created, accept, hreceipt.2 hcreated, hkey, hlive.2 hid⟩
  · rcases h.kept id accept (hprovisioned.1 hid) with hd | hr | ht
    · exact .inl (hdestroyed.2 hd)
    · exact .inr (.inl hr)
    · exact .inr (.inr (ht.mono hsub))
  · have hnone : effects.countP (destroys id) = 0 := by
      refine List.countP_eq_zero.2 fun e he => ?_
      obtain ⟨_, _, rfl⟩ := heffects e he
      exact Bool.false_ne_true
    rw [List.countP_append, hnone, Nat.add_zero]
    exact h.once id
  · obtain ⟨created, accept, hcreated, hkey, hid, hissuer⟩ :=
      h.author id receipt issuerDid ((hmem fun ⟨_, _, h⟩ => nomatch h).1 hd)
    exact ⟨created, accept, hreceipt.2 hcreated, hkey, hprovisioned.2 hid, hissuer⟩

/-- The accept is settled, and no machine is there for it. -/
theorem Inv.settle {issuerDid requesterDid : String} (h : Inv ⟨contracts, pending, log⟩)
    (hissuer : issuerDid = atUriAuthority accept.uri)
    (hpending : ∀ issuerDid requesterDid, .provision accept issuerDid requesterDid ∉ pending)
    (hlive : ∀ id, ¬ Live log id accept) :
    Inv ⟨contracts, .provision accept issuerDid requesterDid :: pending, log⟩ := by
  have hfresh : accept ∉ pending.filterMap Pending.provisioning := by
    intro hmem
    obtain ⟨p, hp, hprovisioning⟩ := List.mem_filterMap.1 hmem
    unfold Pending.provisioning at hprovisioning
    split at hprovisioning
    · cases hprovisioning
      exact hpending _ _ hp
    · cases hprovisioning
  exact ⟨h.receiving_nodup, h.receiving_live, h.receiving_free,
    List.nodup_cons.2 ⟨hfresh, h.provisioning_nodup⟩,
    List.forall_mem_cons.2 ⟨hlive, h.provisioning_free⟩, h.destroying_nodup, h.destroying_held,
    h.contracts_live, h.contracts_inj, h.ids, h.refs, h.kept, h.single, h.once, h.author,
    List.forall_mem_cons.2 ⟨hissuer, h.authorized⟩⟩

theorem countP_destroys_eq_zero (h : ¬ Destroyed log id) : log.countP (destroys id) = 0 := by
  refine List.countP_eq_zero.2 fun e he hdestroys => ?_
  cases e with
  | destroyed id' receipt issuerDid =>
    obtain rfl := of_decide_eq_true hdestroys
    exact h ⟨receipt, issuerDid, he⟩
  | _ => cases hdestroys

/-- A machine is there, with a new id. -/
theorem Inv.provision {issuerDid requesterDid : String}
    (h : Inv ⟨contracts, .provision accept issuerDid requesterDid :: pending, log⟩)
    (hid : ∀ accept, .provisioned id accept ∉ log) (htracked : id.tracked) :
    Inv ⟨contracts, .createReceipt accept issuerDid requesterDid id :: pending,
      log ++ [.provisioned id accept]⟩ := by
  have hsub : ∀ e ∈ log, e ∈ log ++ [.provisioned id accept] :=
    fun e => List.mem_append_left _
  have hprovisioned {id' accept'} : .provisioned id' accept' ∈ log ++ [.provisioned id accept] ↔
      .provisioned id' accept' ∈ log ∨ id' = id ∧ accept' = accept := by simp
  have hreceipt {created accept'} : .receipt created accept' ∈ log ++ [.provisioned id accept] ↔
      .receipt created accept' ∈ log := by simp
  have hdestroyed {id'} : Destroyed (log ++ [.provisioned id accept]) id' ↔ Destroyed log id' := by
    simp [Destroyed]
  have hnew : ¬ Destroyed log id := by
    rintro ⟨receipt, issuerDid, hd⟩
    obtain ⟨-, accept', -, -, hprov, -⟩ := h.author id receipt issuerDid hd
    exact hid accept' hprov
  have hlive {id' accept'} : Live (log ++ [.provisioned id accept]) id' accept' ↔
      Live log id' accept' ∨ id' = id ∧ accept' = accept := by
    rw [Live, Live, hprovisioned, hdestroyed, or_and_right]
    exact or_congr_right (and_iff_left_of_imp fun h => h.1 ▸ hnew)
  have hnodup := List.nodup_cons.1 h.provisioning_nodup
  have hfree := List.forall_mem_cons.1 h.provisioning_free
  have hauthorized := List.forall_mem_cons.1 h.authorized
  refine ⟨List.nodup_cons.2 ⟨fun hmem => ?_, h.receiving_nodup⟩,
    List.forall_mem_cons.2 ⟨hlive.2 (.inr ⟨rfl, rfl⟩),
      fun x hx => hlive.2 (.inl (h.receiving_live x hx))⟩,
    List.forall_mem_cons.2 ⟨fun key contract hc hcid => ?_, h.receiving_free⟩,
    hnodup.2, fun accept' ha id' hid' => ?_, h.destroying_nodup, h.destroying_held,
    fun key contract hc => ?_, h.contracts_inj, fun id' a a' ha ha' => ?_,
    fun created created' _ _ hc hc' => h.refs created created' _ _ (hreceipt.1 hc) (hreceipt.1 hc'),
    fun id' accept' hid' => ?_, fun accept' x y hx hy => ?_, fun id' => ?_,
    fun id' receipt issuerDid hd => ?_,
    List.forall_mem_cons.2 ⟨⟨hauthorized.1, htracked⟩, fun q hq => (hauthorized.2 q hq).mono hsub⟩⟩
  · obtain ⟨x, hx, rfl⟩ := List.mem_map.1 hmem
    exact hid x.2 (h.receiving_live x hx).1
  · obtain ⟨-, accept', -, -, hprov, -⟩ := h.contracts_live key contract hc
    obtain rfl : contract.providerId = id := hcid
    exact hid accept' hprov
  · rcases hlive.1 hid' with hold | ⟨-, rfl⟩
    · exact hfree.2 accept' ha id' hold
    · exact hnodup.1 ha
  · obtain ⟨created, accept', hcreated, hkey, hold⟩ := h.contracts_live key contract hc
    exact ⟨created, accept', hreceipt.2 hcreated, hkey, hlive.2 (.inl hold)⟩
  · rcases hprovisioned.1 ha with hold | ⟨hsame, rfl⟩
    · rcases hprovisioned.1 ha' with hold' | ⟨hsame, -⟩
      · exact h.ids id' a a' hold hold'
      · exact absurd (hsame ▸ hold) (hid a)
    · rcases hprovisioned.1 ha' with hold' | ⟨-, rfl⟩
      · exact absurd (hsame ▸ hold') (hid a')
      · rfl
  · rcases hprovisioned.1 hid' with hold | ⟨rfl, rfl⟩
    · rcases h.kept id' accept' hold with hd | hr | ht
      · exact .inl (hdestroyed.2 hd)
      · exact .inr (.inl (List.mem_cons_of_mem _ hr))
      · exact .inr (.inr (ht.mono hsub))
    · exact .inr (.inl List.mem_cons_self)
  · rcases hlive.1 hx with hold | ⟨hsame, rfl⟩
    · rcases hlive.1 hy with hold' | ⟨-, rfl⟩
      · exact h.single accept' x y hold hold'
      · exact absurd hold (hfree.1 x)
    · rcases hlive.1 hy with hold' | ⟨hsame', -⟩
      · exact absurd hold' (hfree.1 y)
      · exact hsame.trans hsame'.symm
  · rw [List.countP_append]
    exact h.once id'
  · obtain ⟨created, accept', hcreated, hkey, hprov, hissuer⟩ :=
      h.author id' receipt issuerDid (by simpa using hd)
    exact ⟨created, accept', hreceipt.2 hcreated, hkey, hprovisioned.2 (.inl hprov), hissuer⟩

/-- The receipt is created, with a new ref, and the machine is tracked. -/
theorem Inv.track {issuerDid requesterDid : String}
    (h : Inv ⟨contracts, .createReceipt accept issuerDid requesterDid id :: pending, log⟩)
    (hkey : ∀ created accept, .receipt created accept ∈ log → refKey created ≠ refKey receipt) :
    Inv ⟨set (refKey receipt) ⟨id, requesterDid⟩ contracts, pending,
      log ++ [.receipt receipt accept,
        .replied (some issuerDid) (.accepted (receiptId receipt) receipt)]⟩ := by
  let effects : List Effect := [.receipt receipt accept,
    .replied (some issuerDid) (.accepted (receiptId receipt) receipt)]
  change Inv ⟨_, pending, log ++ effects⟩
  have hsub : ∀ e ∈ log, e ∈ log ++ effects := fun e => List.mem_append_left _
  have hprovisioned {id' accept'} : .provisioned id' accept' ∈ log ++ effects ↔
      .provisioned id' accept' ∈ log := by simp [effects]
  have hreceipt {created accept'} : .receipt created accept' ∈ log ++ effects ↔
      .receipt created accept' ∈ log ∨ created = receipt ∧ accept' = accept := by simp [effects]
  have hdestroyed {id'} : Destroyed (log ++ effects) id' ↔ Destroyed log id' := by
    simp [Destroyed, effects]
  have hlive {id' accept'} : Live (log ++ effects) id' accept' ↔ Live log id' accept' :=
    and_congr hprovisioned (not_congr hdestroyed)
  have hnone : contracts.lookup (refKey receipt) = none := by
    refine Option.eq_none_iff_forall_ne_some.2 fun contract hc => ?_
    obtain ⟨created, accept', hcreated, hsame, -⟩ := h.contracts_live _ contract hc
    exact hkey created accept' hcreated hsame
  have hlookup {key contract} : (set (refKey receipt) ⟨id, requesterDid⟩ contracts).lookup key =
      some contract → key = refKey receipt ∧ contract = ⟨id, requesterDid⟩ ∨
        contracts.lookup key = some contract := by
    rw [lookup_set]
    split_ifs with hsame
    · exact fun hc => .inl ⟨hsame, (Option.some.inj hc).symm⟩
    · exact .inr
  have hold {key contract} (hc : contracts.lookup key = some contract) :
      (set (refKey receipt) ⟨id, requesterDid⟩ contracts).lookup key = some contract := by
    rw [lookup_set, if_neg]
    · exact hc
    · rintro rfl
      cases hnone.symm.trans hc
  have hnodup := List.nodup_cons.1 h.receiving_nodup
  have hreceiving := List.forall_mem_cons.1 h.receiving_live
  have hfree := List.forall_mem_cons.1 h.receiving_free
  obtain ⟨⟨hissuer, -⟩, hauthorized⟩ := List.forall_mem_cons.1 h.authorized
  refine ⟨hnodup.2, fun x hx => hlive.2 (hreceiving.2 x hx), fun x hx key contract hc => ?_,
    h.provisioning_nodup, fun accept' ha id' hid => h.provisioning_free accept' ha id' (hlive.1 hid),
    h.destroying_nodup, fun x hx => hold (h.destroying_held x hx), fun key contract hc => ?_,
    fun key key' contract contract' hc hc' hsame => ?_,
    fun id' _ _ ha ha' => h.ids id' _ _ (hprovisioned.1 ha) (hprovisioned.1 ha'),
    fun created created' a a' hc hc' hsame => ?_, fun id' accept' hid => ?_,
    fun accept' x y hx hy => h.single accept' x y (hlive.1 hx) (hlive.1 hy), fun id' => ?_,
    fun id' receipt' issuerDid' hd => ?_, fun p hp => (hauthorized p hp).mono hsub⟩
  · rcases hlookup hc with ⟨-, rfl⟩ | hc
    · exact fun hsame => hnodup.1 (List.mem_map.2 ⟨x, hx, hsame.symm⟩)
    · exact hfree.2 x hx key contract hc
  · rcases hlookup hc with ⟨rfl, rfl⟩ | hc
    · exact ⟨receipt, accept, hreceipt.2 (.inr ⟨rfl, rfl⟩), rfl, hlive.2 hreceiving.1⟩
    · obtain ⟨created, accept', hcreated, hsame, hid⟩ := h.contracts_live key contract hc
      exact ⟨created, accept', hreceipt.2 (.inl hcreated), hsame, hlive.2 hid⟩
  · rcases hlookup hc with ⟨rfl, rfl⟩ | hc
    · rcases hlookup hc' with ⟨rfl, rfl⟩ | hc'
      · rfl
      · exact absurd hsame.symm (hfree.1 key' contract' hc')
    · rcases hlookup hc' with ⟨rfl, rfl⟩ | hc'
      · exact absurd hsame (hfree.1 key contract hc)
      · exact h.contracts_inj key key' contract contract' hc hc' hsame
  · rcases hreceipt.1 hc with hbefore | ⟨rfl, rfl⟩
    · rcases hreceipt.1 hc' with hbefore' | ⟨rfl, -⟩
      · exact h.refs created created' a a' hbefore hbefore' hsame
      · exact absurd hsame (hkey created a hbefore)
    · rcases hreceipt.1 hc' with hbefore' | ⟨-, rfl⟩
      · exact absurd hsame.symm (hkey created' a' hbefore')
      · rfl
  · rcases h.kept id' accept' (hprovisioned.1 hid) with hd | hr | ⟨created, author, hr, hrep, hc⟩
    · exact .inl (hdestroyed.2 hd)
    · rcases List.mem_cons.1 hr with hr | hr
      · obtain ⟨rfl, rfl⟩ := Prod.mk.inj hr
        refine .inr (.inr ⟨receipt, requesterDid, hreceipt.2 (.inr ⟨rfl, rfl⟩), ?_, ?_⟩)
        · rw [← hissuer]
          exact List.mem_append_right _ (List.mem_cons_of_mem _ (List.mem_singleton_self _))
        · exact (lookup_set _ _ _ _).trans (if_pos rfl)
      · exact .inr (.inl hr)
    · exact .inr (.inr ⟨created, author, hreceipt.2 (.inl hr), hsub _ hrep, hold hc⟩)
  · rw [List.countP_append]
    exact h.once id'
  · obtain ⟨created, accept', hcreated, hsame, hprov, hissuer⟩ :=
      h.author id' receipt' issuerDid' (by simpa [effects] using hd)
    exact ⟨created, accept', hreceipt.2 (.inl hcreated), hsame, hprovisioned.2 hprov, hissuer⟩

/-- The contract is held while its machine is destroyed. -/
theorem Inv.beginDestroy {issuerDid : String} {contract : ActiveContract}
    (h : Inv ⟨contracts, pending, log⟩)
    (hlookup : contracts.lookup (refKey receipt) = some contract)
    (hpending : ∀ receipt' issuerDid' contract', .destroy receipt' issuerDid' contract' ∈ pending →
      refKey receipt' ≠ refKey receipt)
    (hauthorized : Authorized log (.destroy receipt issuerDid contract)) :
    Inv ⟨contracts, .destroy receipt issuerDid contract :: pending, log⟩ := by
  have hfresh : refKey receipt ∉ (pending.filterMap Pending.destroying).map Prod.fst := by
    intro hmem
    obtain ⟨x, hx, hkey⟩ := List.mem_map.1 hmem
    obtain ⟨p, hp, hdestroying⟩ := List.mem_filterMap.1 hx
    unfold Pending.destroying at hdestroying
    split at hdestroying
    · cases hdestroying
      exact hpending _ _ _ hp hkey
    · cases hdestroying
  exact ⟨h.receiving_nodup, h.receiving_live, h.receiving_free, h.provisioning_nodup,
    h.provisioning_free, List.nodup_cons.2 ⟨hfresh, h.destroying_nodup⟩,
    List.forall_mem_cons.2 ⟨hlookup, h.destroying_held⟩, h.contracts_live, h.contracts_inj, h.ids,
    h.refs, h.kept, h.single, h.once, h.author, List.forall_mem_cons.2 ⟨hauthorized, h.authorized⟩⟩

/-- The machine is destroyed and forgotten. -/
theorem Inv.destroy {issuerDid : String} {contract : ActiveContract}
    (h : Inv ⟨contracts, .destroy receipt issuerDid contract :: pending, log⟩) :
    Inv ⟨erase (refKey receipt) contracts, pending,
      log ++ [.destroyed contract.providerId receipt issuerDid, .replied (some issuerDid) .ok]⟩ := by
  let effects : List Effect :=
    [.destroyed contract.providerId receipt issuerDid, .replied (some issuerDid) .ok]
  change Inv ⟨_, pending, log ++ effects⟩
  have hsub : ∀ e ∈ log, e ∈ log ++ effects := fun e => List.mem_append_left _
  have hprovisioned {id' accept'} : .provisioned id' accept' ∈ log ++ effects ↔
      .provisioned id' accept' ∈ log := by simp [effects]
  have hreceipt {created accept'} : .receipt created accept' ∈ log ++ effects ↔
      .receipt created accept' ∈ log := by simp [effects]
  have hdestroyed {id'} : Destroyed (log ++ effects) id' ↔
      Destroyed log id' ∨ id' = contract.providerId := by
    simp [Destroyed, effects, exists_or]
  have hlive {id' accept'} : Live (log ++ effects) id' accept' ↔
      Live log id' accept' ∧ id' ≠ contract.providerId := by
    rw [Live, Live, hprovisioned, hdestroyed, not_or, and_assoc]
  obtain ⟨hheld, hdestroying⟩ := List.forall_mem_cons.1 h.destroying_held
  have hnodup := List.nodup_cons.1 h.destroying_nodup
  obtain ⟨⟨accept, ⟨created, hcreated, hkey⟩, hissuer⟩, hauthorized⟩ :=
    List.forall_mem_cons.1 h.authorized
  obtain ⟨created', accept', hcreated', hkey', hid⟩ := h.contracts_live _ contract hheld
  obtain rfl := h.refs created created' accept accept' hcreated hcreated' (hkey.trans hkey'.symm)
  have hlookup {key contract'} : (erase (refKey receipt) contracts).lookup key = some contract' ↔
      key ≠ refKey receipt ∧ contracts.lookup key = some contract' := by
    rw [lookup_erase]
    split_ifs with hsame
    · exact iff_of_false (fun hc => nomatch hc) fun hc => hc.1 hsame
    · exact (and_iff_right hsame).symm
  refine ⟨h.receiving_nodup, fun x hx => hlive.2 ⟨h.receiving_live x hx, ?_⟩,
    fun x hx key c hc => h.receiving_free x hx key c (hlookup.1 hc).2, h.provisioning_nodup,
    fun a ha id' hid' => h.provisioning_free a ha id' (hlive.1 hid').1, hnodup.2,
    fun x hx => hlookup.2 ⟨?_, hdestroying x hx⟩, fun key c hc => ?_,
    fun key key' c c' hc hc' => h.contracts_inj key key' c c' (hlookup.1 hc).2 (hlookup.1 hc').2,
    fun id' _ _ ha ha' => h.ids id' _ _ (hprovisioned.1 ha) (hprovisioned.1 ha'),
    fun c c' _ _ hc hc' => h.refs c c' _ _ (hreceipt.1 hc) (hreceipt.1 hc'),
    fun id' a ha => ?_,
    fun a x y hx hy => h.single a x y (hlive.1 hx).1 (hlive.1 hy).1, fun id' => ?_,
    fun id' receipt' issuerDid' hd => ?_, fun p hp => (hauthorized p hp).mono hsub⟩
  · exact fun hsame => h.receiving_free x hx _ contract hheld hsame.symm
  · exact fun hsame => hnodup.1 (List.mem_map.2 ⟨x, hx, hsame⟩)
  · obtain ⟨hne, hc⟩ := hlookup.1 hc
    obtain ⟨created₁, accept₁, hcreated₁, hkey₁, hid₁⟩ := h.contracts_live key c hc
    refine ⟨created₁, accept₁, hreceipt.2 hcreated₁, hkey₁, hlive.2 ⟨hid₁, fun hsame => hne ?_⟩⟩
    exact h.contracts_inj key _ c contract hc hheld hsame
  · rcases h.kept id' a (hprovisioned.1 ha) with hd | hr | ⟨created₁, author, hr, hrep, hc⟩
    · exact .inl (hdestroyed.2 (.inl hd))
    · exact .inr (.inl hr)
    · by_cases hsame : refKey created₁ = refKey receipt
      · rw [hsame] at hc
        obtain rfl := Option.some.inj (hheld.symm.trans hc)
        exact .inl (hdestroyed.2 (.inr rfl))
      · exact .inr (.inr ⟨created₁, author, hreceipt.2 hr, hsub _ hrep, hlookup.2 ⟨hsame, hc⟩⟩)
  · rw [List.countP_append]
    by_cases hsame : id' = contract.providerId
    · rw [hsame, countP_destroys_eq_zero hid.2]
      simp [effects, destroys]
    · have hnone : effects.countP (destroys id') = 0 :=
        countP_destroys_eq_zero (by simp [Destroyed, effects, hsame])
      rw [hnone, Nat.add_zero]
      exact h.once id'
  · rcases List.mem_append.1 hd with hd | hd
    · obtain ⟨created₁, accept₁, hcreated₁, hkey₁, hprov, hissuer₁⟩ :=
        h.author id' receipt' issuerDid' hd
      exact ⟨created₁, accept₁, hreceipt.2 hcreated₁, hkey₁, hprovisioned.2 hprov, hissuer₁⟩
    · obtain ⟨rfl, rfl, rfl⟩ : id' = contract.providerId ∧ receipt' = receipt ∧
          issuerDid' = issuerDid := by simpa [effects] using hd
      exact ⟨created, accept, hreceipt.2 hcreated, hkey, hprovisioned.2 hid.1, hissuer⟩

/-! ## Answers -/

/-- The state after a request has taken an answer. -/
def Result.after (r : Result) (pending : List Pending) (log : List Effect) : State :=
  ⟨r.activeContracts, r.next.toList ++ pending, log ++ r.effects⟩

theorem inv_replies {issuerDid : Option String} {reply : Reply}
    (h : Inv ⟨contracts, p :: pending, log⟩) (hp : p.receiving = none) :
    Inv ((replies contracts issuerDid reply).after pending log) :=
  (h.drop hp).reply (List.forall_mem_singleton.2 ⟨issuerDid, reply, rfl⟩)

theorem inv_waits (h : Inv ⟨contracts, p :: pending, log⟩) (hp : p.receiving = none)
    (hq : q.Plain) (hauthorized : Authorized log q) :
    Inv ((waits contracts q).after pending log) :=
  ((h.drop hp).add hq hauthorized).reply (List.forall_mem_nil _)

theorem inv_authorize {uri : String} {result : Except String Auth} {next : Auth → Pending}
    (h : Inv ⟨contracts, p :: pending, log⟩) (hp : p.receiving = none)
    (hnext : ∀ auth : Auth, auth.issuerDid = atUriAuthority uri →
      (next auth).Plain ∧ Authorized log (next auth)) :
    Inv ((authorize contracts uri result next).after pending log) := by
  cases result with
  | error err => exact inv_replies h hp
  | ok auth =>
    unfold authorize
    dsimp only
    split_ifs with hissuer
    · exact inv_replies h hp
    · have hnext := hnext auth (not_not.1 hissuer)
      exact inv_waits h hp hnext.1 hnext.2

theorem inv_dispatch {auth : Auth} {event : MarketEvent}
    (h : Inv ⟨contracts, p :: pending, log⟩) (hp : p.receiving = none) :
    Inv ((dispatch contracts auth event).after pending log) := by
  unfold dispatch
  split
  · exact inv_replies h hp
  · split_ifs
    · split
      · exact inv_replies h hp
      · split
        · exact inv_replies h hp
        · next contract hlookup =>
          obtain ⟨created, accept, hcreated, hkey, -⟩ := h.contracts_live _ contract hlookup
          exact inv_waits h hp ⟨rfl, rfl, rfl⟩ ⟨accept, created, hcreated, hkey⟩
    · exact inv_replies h hp

theorem pending_perm {i : ℕ} (hp : pending[i]? = some p) :
    pending.Perm (p :: pending.eraseIdx i) := by
  obtain ⟨hi, rfl⟩ := List.getElem?_eq_some_iff.1 hp
  exact (List.getElem_cons_eraseIdx_perm hi).symm

theorem inv_answer {s : State} {i : ℕ} {a : Answer} {r : Result} (h : Inv s)
    (hkept : Kept s (.answer i a)) (hcareful : Careful s (.answer i a))
    (hp : s.pending[i]? = some p) (hr : answer s.activeContracts p a = some r) :
    Inv (r.after (s.pending.eraseIdx i) s.log) := by
  have hperm := pending_perm hp
  have hold : Inv ⟨s.activeContracts, p :: s.pending.eraseIdx i, s.log⟩ := h.perm hperm
  have hmem : ∀ q ∈ s.pending.eraseIdx i, q ∈ s.pending :=
    fun q hq => hperm.mem_iff.2 (List.mem_cons_of_mem p hq)
  have hauthorized := (List.forall_mem_cons.1 hold.authorized).1
  cases p with
  | authorizeAccept accept =>
    cases a with
    | auth result =>
      obtain rfl := Option.some.inj hr
      exact inv_authorize hold rfl fun _ hissuer => ⟨⟨rfl, rfl, rfl⟩, hissuer⟩
    | _ => cases hr
  | resolveAccept accept issuerDid =>
    cases a with
    | accept result =>
      cases result with
      | error err =>
        obtain rfl := Option.some.inj hr
        exact inv_replies hold rfl
      | ok uri =>
        obtain rfl := Option.some.inj hr
        exact inv_waits hold rfl ⟨rfl, rfl, rfl⟩ hauthorized
    | _ => cases hr
  | verifyAccept accept issuerDid uri =>
    cases a with
    | signed ok =>
      cases ok with
      | false =>
        obtain rfl := Option.some.inj hr
        exact inv_replies hold rfl
      | true =>
        obtain rfl := Option.some.inj hr
        exact inv_waits hold rfl ⟨rfl, rfl, rfl⟩ hauthorized
    | _ => cases hr
  | settle accept issuerDid requesterDid =>
    cases a with
    | settled result =>
      cases result with
      | error err =>
        obtain rfl := Option.some.inj hr
        exact inv_replies hold rfl
      | ok =>
        obtain rfl := Option.some.inj hr
        obtain ⟨hpending, hlive⟩ := hcareful.accept i accept issuerDid requesterDid rfl hp
        exact ((hold.drop rfl).settle hauthorized (fun _ _ hq => hpending _ _ (hmem _ hq))
          hlive).reply (List.forall_mem_nil _)
    | _ => cases hr
  | provision accept issuerDid requesterDid =>
    cases a with
    | provisioned result =>
      cases result with
      | error err =>
        obtain rfl := Option.some.inj hr
        exact inv_replies hold rfl
      | ok id =>
        obtain rfl := Option.some.inj hr
        have htracked := hcareful.id i id rfl
        exact hold.provision (hkept.ids i id rfl htracked) htracked
    | _ => cases hr
  | createReceipt accept issuerDid requesterDid id =>
    cases a with
    | receipt result =>
      cases result with
      | error err => exact absurd rfl (hcareful.receipt i err)
      | ok receipt =>
        obtain rfl := Option.some.inj hr
        have hafter := hold.track (hkept.refs i receipt rfl)
        rwa [Result.after, track, if_pos hauthorized.2]
    | _ => cases hr
  | authorizeEvent event =>
    cases a with
    | auth result =>
      obtain rfl := Option.some.inj hr
      exact inv_authorize hold rfl fun _ _ => ⟨⟨rfl, rfl, rfl⟩, trivial⟩
    | _ => cases hr
  | resolveEvent ref auth =>
    cases a with
    | event result =>
      cases result with
      | error err =>
        obtain rfl := Option.some.inj hr
        exact inv_replies hold rfl
      | ok event =>
        simp only [answer, answerAccept, answerEvent, Option.none_or] at hr
        split_ifs at hr
        · obtain rfl := Option.some.inj hr
          exact inv_waits hold rfl ⟨rfl, rfl, rfl⟩ trivial
        · obtain rfl := Option.some.inj hr
          exact inv_replies hold rfl
    | _ => cases hr
  | verifyEvent ref auth event =>
    cases a with
    | signed ok =>
      cases ok with
      | false =>
        obtain rfl := Option.some.inj hr
        exact inv_replies hold rfl
      | true =>
        obtain rfl := Option.some.inj hr
        exact inv_dispatch hold rfl
    | _ => cases hr
  | resolveReceipt receipt payload issuerDid =>
    cases a with
    | receiptRecord result =>
      cases result with
      | error err =>
        obtain rfl := Option.some.inj hr
        exact inv_replies hold rfl
      | ok acceptUri =>
        obtain rfl := Option.some.inj hr
        unfold checkAuthor
        split_ifs with hissuer
        · exact inv_replies hold rfl
        · obtain ⟨accept, created, hcreated, hkey⟩ := hauthorized
          have huri := hkept.records i receipt payload issuerDid acceptUri rfl hp created accept
            hcreated hkey
          exact inv_waits hold rfl ⟨rfl, rfl, rfl⟩
            ⟨accept, ⟨created, hcreated, hkey⟩, huri ▸ not_not.1 hissuer⟩
    | _ => cases hr
  | resolvePayload receipt payload issuerDid =>
    cases a with
    | payload result =>
      cases result with
      | error err =>
        obtain rfl := Option.some.inj hr
        exact inv_replies hold rfl
      | ok =>
        obtain rfl := Option.some.inj hr
        unfold deleteRunningCompute
        split
        · exact inv_replies hold rfl
        · next contract hlookup =>
          have hpending := hcareful.delete i receipt payload issuerDid rfl hp
          exact ((hold.drop rfl).beginDestroy hlookup (fun _ _ _ hq => hpending _ _ _ (hmem _ hq))
            hauthorized).reply (List.forall_mem_nil _)
    | _ => cases hr
  | destroy receipt issuerDid contract =>
    cases a with
    | destroyed result =>
      cases result with
      | error err =>
        obtain rfl := Option.some.inj hr
        exact inv_replies hold rfl
      | ok =>
        obtain rfl := Option.some.inj hr
        exact hold.destroy
    | _ => cases hr

theorem inv_receive {s : State} {complete : Bool} {missing : String} (h : Inv s) (hp : p.Plain)
    (hauthorized : Authorized s.log p) : Inv (receive s complete p missing) := by
  unfold receive
  split_ifs
  · exact h.add hp hauthorized
  · exact h.reply (List.forall_mem_singleton.2 ⟨_, _, rfl⟩)

theorem inv_step {s : State} {e : Event} (h : Inv s) (hkept : Kept s e) (hcareful : Careful s e) :
    Inv (step s e) := by
  cases e with
  | submitAccept acceptUri acceptCid => exact inv_receive h ⟨rfl, rfl, rfl⟩ trivial
  | submitEvent uri cid record => exact inv_receive h ⟨rfl, rfl, rfl⟩ trivial
  | answer i a =>
    rw [step, resume]
    split
    · exact h
    · next p hp =>
      split
      · exact h
      · next r hr => exact inv_answer h hkept hcareful hp hr

/-! ## Receipts that are not tracked -/

/-- The answer leads to nothing but replies. -/
def OnlyReplies (contracts : List (String × ActiveContract)) (r : Result) : Prop :=
  r.activeContracts = contracts ∧ ∀ e ∈ r.effects, IsReply e

theorem onlyReplies_replies (issuerDid : Option String) (reply : Reply) :
    OnlyReplies contracts (replies contracts issuerDid reply) :=
  ⟨rfl, List.forall_mem_singleton.2 ⟨issuerDid, reply, rfl⟩⟩

theorem onlyReplies_waits (next : Pending) : OnlyReplies contracts (waits contracts next) :=
  ⟨rfl, List.forall_mem_nil _⟩

/-- Before a machine is being destroyed, its receipt has to be tracked. -/
theorem onlyReplies_answer {a : Answer} {r : Result} (hreceipt : p.eventReceipt = some receipt)
    (hnone : contracts.lookup (refKey receipt) = none) (hdestroying : p.destroying = none)
    (hr : answer contracts p a = some r) : OnlyReplies contracts r := by
  cases p with
  | verifyEvent ref auth event =>
    cases a with
    | signed ok =>
      cases ok with
      | false =>
        obtain rfl := Option.some.inj hr
        exact onlyReplies_replies _ _
      | true =>
        obtain rfl := Option.some.inj hr
        have hreceipt : event.receipt = some receipt := hreceipt
        unfold dispatch
        simp only [hreceipt, hnone]
        split
        · exact onlyReplies_replies _ _
        · split_ifs
          · exact onlyReplies_replies _ _
          · exact onlyReplies_replies _ _
    | _ => cases hr
  | resolveReceipt receipt payload issuerDid =>
    cases a with
    | receiptRecord result =>
      cases result with
      | error err =>
        obtain rfl := Option.some.inj hr
        exact onlyReplies_replies _ _
      | ok acceptUri =>
        obtain rfl := Option.some.inj hr
        unfold checkAuthor
        split_ifs
        · exact onlyReplies_replies _ _
        · exact onlyReplies_waits _
    | _ => cases hr
  | resolvePayload receipt' payload issuerDid =>
    cases a with
    | payload result =>
      cases result with
      | error err =>
        obtain rfl := Option.some.inj hr
        exact onlyReplies_replies _ _
      | ok =>
        obtain rfl := Option.some.inj hr
        obtain rfl := Option.some.inj hreceipt
        unfold deleteRunningCompute
        rw [hnone]
        exact onlyReplies_replies _ _
    | _ => cases hr
  | destroy receipt issuerDid contract => cases hdestroying
  | _ => cases hreceipt

theorem Inv.ignored {s : State} (h : Inv s) (e : Event) : Ignored s e := by
  rintro i a p receipt rfl hp hreceipt hnone
  rw [step, resume]
  simp only [hp]
  split
  · exact ⟨rfl, fun _ he => .inl he⟩
  · next r hr =>
    have hdestroying : p.destroying = none := by
      cases p with
      | destroy receipt' issuerDid contract =>
        -- Its contract is still held.
        have hmem : (refKey receipt', contract) ∈ s.pending.filterMap Pending.destroying :=
          List.mem_filterMap.2 ⟨_, List.mem_of_getElem? hp, rfl⟩
        have hheld := h.destroying_held _ hmem
        obtain rfl := Option.some.inj hreceipt
        cases hnone.symm.trans hheld
      | _ => rfl
    obtain ⟨hcontracts, heffects⟩ := onlyReplies_answer hreceipt hnone hdestroying hr
    exact ⟨hcontracts, fun e he => (List.mem_append.1 he).imp_right (heffects e)⟩

end

/-! ## Runs -/

/-- In every run whose steps are careful the machines are tracked, and events for receipts that
    are not tracked change nothing. -/
theorem tracked_of_careful {es : List Event}
    (h : Along step (fun s e => Kept s e ∧ Careful s e) start es) :
    Along step (fun s e => Tracking (step s e) ∧ Ignored s e) start es := by
  refine along_of_inv (fun s e hinv ⟨hkept, hcareful⟩ => ?_) inv_start h
  have hstep := inv_step hinv hkept hcareful
  exact ⟨⟨hstep.tracking, hinv.ignored e⟩, hstep⟩

/-! ## A machine and its receipt -/

def sampleAccept : Ref :=
  ⟨"at://did:plc:alice/com.publicdomainrelay.temp.market.accept/1",
    "bafyreibnmoc2dvo7rqpxateyui4yjo3psdplmymp7hos4zrhhcn72ebl3a"⟩

def sampleReceipt : Ref :=
  ⟨"at://did:plc:bob/com.publicdomainrelay.temp.market.receipt/1",
    "bafyreigzpkut4vzuke3hl7uyzphjufl4pyys25jveg7cvbifmmafp2iihq"⟩

/-- Alice's accept comes in and is settled. -/
def sampleSettle : List Event :=
  [.submitAccept sampleAccept.uri sampleAccept.cid,
    .answer 0 (.auth (.ok ⟨"did:plc:alice", some "pdr_temp_market"⟩)),
    .answer 0 (.accept (.ok sampleAccept.uri)), .answer 0 (.signed true)]

/-- A machine is provisioned for it, and its receipt is asked for. -/
def sampleProvision (result : Except String Ref) : List Event :=
  [.answer 0 (.settled (.ok ())), .answer 0 (.provisioned (.ok (.text "pdr-alice-1"))),
    .answer 0 (.receipt result)]

/-- The state in which the accept is settled. -/
def sampleState : State :=
  ⟨[], [.settle sampleAccept "did:plc:alice" "did:plc:alice"], []⟩

theorem foldl_sampleSettle : sampleSettle.foldl step start = sampleState := by decide +kernel

theorem kept_sampleSettle : Along step Kept start sampleSettle := by
  refine ⟨⟨nofun, nofun, nofun⟩, ⟨nofun, nofun, nofun⟩, ⟨nofun, nofun, nofun⟩,
    ⟨nofun, nofun, nofun⟩, trivial⟩

theorem careful_sampleSettle : Along step Careful start sampleSettle := by
  refine ⟨⟨nofun, nofun, nofun, nofun⟩, ⟨nofun, nofun, nofun, nofun⟩,
    ⟨nofun, nofun, nofun, nofun⟩, ⟨nofun, nofun, nofun, nofun⟩, trivial⟩

theorem kept_sampleProvision (result : Except String Ref) :
    Along step Kept sampleState (sampleProvision result) := by
  refine ⟨⟨nofun, nofun, nofun⟩, ⟨?_, nofun, nofun⟩, ⟨nofun, ?_, nofun⟩, trivial⟩
  · rintro i id ⟨⟩ - accept hmem
    cases hmem
  · rintro i receipt ⟨⟩ created accept hmem
    have hmem : Effect.receipt created accept ∈ [.provisioned (.text "pdr-alice-1") sampleAccept] :=
      hmem
    cases List.mem_singleton.1 hmem

theorem careful_sampleProvision (receipt : Ref) :
    Along step Careful sampleState (sampleProvision (.ok receipt)) := by
  refine ⟨⟨nofun, nofun, ?_, nofun⟩, ⟨?_, nofun, nofun, nofun⟩, ⟨nofun, nofun, nofun, nofun⟩,
    trivial⟩
  · rintro i accept issuerDid requesterDid ⟨⟩ -
    refine ⟨fun _ _ hmem => ?_, fun id hlive => nomatch hlive.1⟩
    cases List.mem_singleton.1 hmem
  · rintro i id ⟨⟩
    rfl

theorem tracked_sample : Along step (fun s e => Tracking (step s e) ∧ Ignored s e) start
    (sampleSettle ++ sampleProvision (.ok sampleReceipt)) := by
  refine tracked_of_careful (along_and.2 ⟨along_append.2 ⟨kept_sampleSettle, ?_⟩,
    along_append.2 ⟨careful_sampleSettle, ?_⟩⟩)
  · rw [foldl_sampleSettle]
    exact kept_sampleProvision _
  · rw [foldl_sampleSettle]
    exact careful_sampleProvision _

/-- The receipt could not be created, and the machine is lost. -/
theorem lost_sample : ¬ ∀ es : List Event, Along step Kept start es →
    Along step (fun s e => Tracking (step s e) ∧ Ignored s e) start es := by
  intro hall
  have hkept : Along step Kept start (sampleSettle ++ sampleProvision (.error "fetch failed")) := by
    refine along_append.2 ⟨kept_sampleSettle, ?_⟩
    rw [foldl_sampleSettle]
    exact kept_sampleProvision _
  have hrun := (along_append.1 (hall _ hkept)).2
  rw [foldl_sampleSettle] at hrun
  obtain ⟨-, -, ⟨htracking, -⟩, -⟩ := hrun
  have hkept := htracking.kept (.text "pdr-alice-1") sampleAccept List.mem_cons_self
    fun _ _ _ hmem => nomatch hmem
  rcases hkept with ⟨receipt, issuerDid, hmem⟩ | ⟨receipt, author, -, -, hlookup⟩
  · have hmem : Effect.destroyed (.text "pdr-alice-1") receipt issuerDid ∈
        [.provisioned (.text "pdr-alice-1") sampleAccept,
          .replied (some "did:plc:alice") (.thrown "fetch failed")] := hmem
    simp at hmem
  · cases hlookup

end ComputeContract.Bidder
