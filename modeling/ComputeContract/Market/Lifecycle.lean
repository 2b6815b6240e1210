import ComputeContract.Market.Ephemeral

/-!
# VMs of the ephemeral bidder

No accept gets two VMs, no VM is destroyed twice or forgotten, and no other contract is touched,
as long as an accept is not accepted again, a contract is not deleted while it is being deleted,
the provider destroys what it is asked to, and is torn down with the last contract.

* `Inv`: how jobs, receipts, contracts and requests belong together;
* `lifecycle_of_careful`: the property of runs.
-/

namespace ComputeContract.Ephemeral

open AssocList Market
open Bidder (Ref refKey Auth MarketEvent)

/-- The receipt of the contract that a request is deleting. -/
def Pending.deleting : Pending → Option Ref
  | .awaitProvider receipt _ _ | .destroy receipt _ _ => some receipt
  | _ => none

/-- So it is when the next answer ends the deletion. -/
def Pending.finishing (s : State) : Pending → Option Ref
  | .awaitProvider receipt _ job => if promise s job = some none then some receipt else none
  | .destroy receipt _ _ => some receipt
  | _ => none

/-- The step keeps to what the bidder does not check. -/
structure Careful (cfg : Config) (s : State) (e : Event) : Prop where
  /-- An accept comes once, unless its job has failed. -/
  accept : ∀ i accept issuerDid, e = .answer i (.signed true) →
    s.pending[i]? = some (.verifyAccept accept issuerDid true) →
    ∀ job ∈ s.jobs, job.accept = accept → job.status = .settled none
  /-- A contract is deleted while it is not being deleted. -/
  delete : ∀ i ref auth event receipt, e = .answer i (.signed true) →
    s.pending[i]? = some (.verifyEvent ref auth event) → event.receipt = some receipt →
    ∀ p ∈ s.pending, ∀ receipt', p.deleting = some receipt' → refKey receipt' ≠ refKey receipt
  /-- The provider destroys the VM. -/
  destroy : ∀ i err, e ≠ .answer i (.destroyed (.error err))
  /-- A provider that can be torn down has no other contract. -/
  alone : cfg.teardown → ∀ i a p receipt, e = .answer i a → s.pending[i]? = some p →
    p.finishing s = some receipt → ∀ key ∈ keys s.activeContracts, key = refKey receipt

/-! ## The invariant -/

/-- The job whose receipt the request creates. -/
def Pending.receiving : Pending → Option ℕ
  | .createReceipt _ _ job => job
  | _ => none

/-- The request was let in. -/
def Allowed (contracts : List (String × ActiveContract)) (jobs : List Job) (log : List Effect) :
    Pending → Prop
  | .resolveAccept accept issuerDid | .verifyAccept accept issuerDid _ =>
    issuerDid = atUriAuthority accept.uri
  | .createReceipt accept issuerDid job => issuerDid = atUriAuthority accept.uri ∧
    ∀ j, job = some j → (∃ job, jobs[j]? = some job ∧ job.accept = accept) ∧
      ∀ created accept, .receipt created accept (some j) ∉ log
  | .awaitProvider receipt issuerDid job =>
    contracts.lookup (refKey receipt) = some ⟨job, issuerDid⟩
  | .destroy receipt issuerDid id => ∃ j job,
    contracts.lookup (refKey receipt) = some ⟨some j, issuerDid⟩ ∧ jobs[j]? = some job ∧
      job.status = .settled (some id)
  | _ => True

/-- Jobs, receipts, contracts and requests belong together. -/
structure Inv (cfg : Config) (s : State) : Prop where
  provider : ∀ job ∈ s.jobs, cfg.computeProvider
  provisioned : ∀ j id accept, .provisioned j id accept ∈ s.log ↔
    ∃ job, s.jobs[j]? = some job ∧ job.accept = accept ∧ job.status = .settled (some id)
  jobs : ∀ (j j' : ℕ) (job job' : Job), s.jobs[j]? = some job → s.jobs[j']? = some job' →
    job.accept = job'.accept → job.status ≠ .settled none → job'.status ≠ .settled none → j = j'
  ids : ∀ j j' id accept accept', .provisioned j id accept ∈ s.log →
    .provisioned j' id accept' ∈ s.log → j = j'
  receipts : ∀ created accept j, .receipt created accept (some j) ∈ s.log →
    ∃ job, s.jobs[j]? = some job ∧ job.accept = accept
  refs : ∀ created created' accept accept' job job', .receipt created accept job ∈ s.log →
    .receipt created' accept' job' ∈ s.log → refKey created = refKey created' →
    accept = accept' ∧ job = job'
  handed : ∀ created created' accept accept' j, .receipt created accept (some j) ∈ s.log →
    .receipt created' accept' (some j) ∈ s.log → refKey created = refKey created'
  contracts : ∀ key contract, s.activeContracts.lookup key = some contract →
    ∃ created accept, .receipt created accept contract.job ∈ s.log ∧ refKey created = key ∧
      contract.acceptAuthor = atUriAuthority accept.uri
  gone : ∀ id receipt issuerDid, .destroyed id receipt issuerDid ∈ s.log →
    s.activeContracts.lookup (refKey receipt) = none
  lifecycle : Lifecycle s
  allowed : ∀ p ∈ s.pending, Allowed s.activeContracts s.jobs s.log p
  receiving : (s.pending.filterMap Pending.receiving).Nodup
  deleting : ((s.pending.filterMap Pending.deleting).map refKey).Nodup

theorem inv_start (cfg : Config) : Inv cfg start := by
  refine ⟨nofun, fun j id accept => ⟨nofun, ?_⟩, nofun, nofun, nofun, nofun, nofun, nofun, nofun,
    ⟨.nil, .nil, nofun, nofun, nofun⟩, nofun, .nil, .nil⟩
  rintro ⟨job, hjob, -⟩
  cases hjob

section
variable {cfg : Config} {contracts : List (String × ActiveContract)} {jobs : List Job}
  {p q : Pending} {pending pending' : List Pending} {log effects : List Effect}
  {accept receipt : Ref} {issuerDid : String} {job : Option ℕ}

/-! ## Requests -/

/-- Requests end, or go on with nothing of their own. -/
theorem Inv.sublist (h : Inv cfg ⟨contracts, jobs, pending, log⟩)
    (hsub : pending'.Sublist pending) : Inv cfg ⟨contracts, jobs, pending', log⟩ :=
  { h with
    allowed := fun p hp => h.allowed p (hsub.mem hp)
    receiving := h.receiving.sublist (hsub.filterMap _)
    deleting := h.deleting.sublist ((hsub.filterMap _).map _)
    lifecycle := { h.lifecycle with } }

/-- A request waits. -/
theorem Inv.add (h : Inv cfg ⟨contracts, jobs, pending, log⟩)
    (hallowed : Allowed contracts jobs log q)
    (hreceiving : ∀ j, q.receiving = some j → ∀ p ∈ pending, p.receiving ≠ some j)
    (hdeleting : ∀ receipt, q.deleting = some receipt → ∀ p ∈ pending, ∀ receipt',
      p.deleting = some receipt' → refKey receipt' ≠ refKey receipt) :
    Inv cfg ⟨contracts, jobs, q :: pending, log⟩ := by
  refine { h with
    allowed := List.forall_mem_cons.2 ⟨hallowed, h.allowed⟩
    receiving := ?_
    deleting := ?_
    lifecycle := { h.lifecycle with } }
  · rw [List.filterMap_cons]
    split
    · exact h.receiving
    · next j hj =>
      refine List.nodup_cons.2 ⟨fun hmem => ?_, h.receiving⟩
      obtain ⟨p, hp, hpj⟩ := List.mem_filterMap.1 hmem
      exact hreceiving j hj p hp hpj
  · rw [List.filterMap_cons]
    split
    · exact h.deleting
    · next receipt hreceipt =>
      refine List.nodup_cons.2 ⟨fun hmem => ?_, h.deleting⟩
      obtain ⟨receipt', hmem, hkey⟩ := List.mem_map.1 hmem
      obtain ⟨p, hp, hpr⟩ := List.mem_filterMap.1 hmem
      exact hdeleting receipt hreceipt p hp receipt' hpr hkey

/-- The request creates no receipt and deletes nothing. -/
structure Pending.Plain (p : Pending) : Prop where
  receiving : p.receiving = none
  deleting : p.deleting = none

theorem Inv.addPlain (h : Inv cfg ⟨contracts, jobs, pending, log⟩) (hq : q.Plain)
    (hallowed : Allowed contracts jobs log q) :
    Inv cfg ⟨contracts, jobs, q :: pending, log⟩ :=
  h.add hallowed (fun _ hj => nomatch hq.receiving.symm.trans hj)
    fun _ hr => nomatch hq.deleting.symm.trans hr

/-- A reply, or a teardown with the last contract. -/
def Quiet (e : Effect) : Prop :=
  (∃ issuerDid reply, e = .replied issuerDid reply) ∨ ∃ key, e = .teardown key []

theorem quiet_none (heffects : ∀ e ∈ effects, Quiet e) :
    effects.filterMap Effect.provisionedFor = [] ∧ effects.filterMap Effect.destroyedId = [] := by
  simp only [List.filterMap_eq_nil_iff]
  constructor <;>
  · intro e he
    obtain ⟨_, _, rfl⟩ | ⟨_, rfl⟩ := heffects e he <;> rfl

theorem Inv.quiet (h : Inv cfg ⟨contracts, jobs, pending, log⟩) (effects : List Effect)
    (heffects : ∀ e ∈ effects, Quiet e) : Inv cfg ⟨contracts, jobs, pending, log ++ effects⟩ := by
  have hmem {e : Effect} (he : ¬ Quiet e) : e ∈ log ++ effects ↔ e ∈ log :=
    List.mem_append.trans (or_iff_left fun hmem => he (heffects e hmem))
  have hprovisioned {j id accept} : .provisioned j id accept ∈ log ++ effects ↔
      .provisioned j id accept ∈ log := hmem (by simp [Quiet])
  have hreceipt {created accept job} : .receipt created accept job ∈ log ++ effects ↔
      .receipt created accept job ∈ log := hmem (by simp [Quiet])
  have hdestroyed {id receipt issuerDid} : .destroyed id receipt issuerDid ∈ log ++ effects ↔
      .destroyed id receipt issuerDid ∈ log := hmem (by simp [Quiet])
  have hallowed {p} (hp : Allowed contracts jobs log p) :
      Allowed contracts jobs (log ++ effects) p := by
    cases p with
    | createReceipt accept issuerDid job =>
      exact ⟨hp.1, fun j hj => ⟨(hp.2 j hj).1, fun c a hc => (hp.2 j hj).2 c a (hreceipt.1 hc)⟩⟩
    | _ => exact hp
  refine ⟨h.provider, fun j id accept => hprovisioned.trans (h.provisioned j id accept), h.jobs,
    ?_, ?_, ?_, ?_, ?_, ?_, ⟨?_, ?_, ?_, ?_, ?_⟩, fun p hp => hallowed (h.allowed p hp),
    h.receiving, h.deleting⟩
  · simpa only [hprovisioned] using h.ids
  · simpa only [hreceipt] using h.receipts
  · simpa only [hreceipt] using h.refs
  · simpa only [hreceipt] using h.handed
  · simpa only [hreceipt] using h.contracts
  · simpa only [hdestroyed] using h.gone
  · rw [List.filterMap_append, (quiet_none heffects).1, List.append_nil]
    exact h.lifecycle.one
  · rw [List.filterMap_append, (quiet_none heffects).2, List.append_nil]
    exact h.lifecycle.once
  · simpa only [hdestroyed, hreceipt, hprovisioned] using h.lifecycle.author
  · simpa only [hdestroyed, hreceipt, Destroyed] using h.lifecycle.forgotten
  · intro key others hmem
    rcases List.mem_append.1 hmem with hmem | hmem
    · exact h.lifecycle.others key others hmem
    · obtain ⟨_, _, heq⟩ | ⟨_, heq⟩ := heffects _ hmem
      · cases heq
      · cases heq
        rfl

/-! ## Jobs -/

theorem getElem?_concat_eq_some {j : ℕ} {job job' : Job} (h : (jobs ++ [job])[j]? = some job') :
    jobs[j]? = some job' ∨ j = jobs.length ∧ job' = job := by
  rcases Nat.lt_or_ge j jobs.length with hlt | hge
  · rw [List.getElem?_append_left hlt] at h
    exact .inl h
  · rw [List.getElem?_append_right hge] at h
    obtain ⟨hj, rfl⟩ := List.getElem?_eq_some_iff.1 h
    simp at hj
    exact .inr ⟨by omega, by simp⟩

theorem getElem?_concat_of {j : ℕ} {job job' : Job} (h : jobs[j]? = some job') :
    (jobs ++ [job])[j]? = some job' := by
  rw [List.getElem?_append_left (List.getElem?_eq_some_iff.1 h).1, h]

/-- A job starts for an accept that no other one has. -/
theorem Inv.startJob (h : Inv cfg ⟨contracts, jobs, pending, log⟩) (issuerDid : String)
    (hprovider : cfg.computeProvider)
    (haccept : ∀ job ∈ jobs, job.accept = accept → job.status = .settled none) :
    Inv cfg ⟨contracts, jobs ++ [⟨accept, issuerDid, .resolving⟩], pending, log⟩ := by
  have hallowed {p} (hp : Allowed contracts jobs log p) :
      Allowed contracts (jobs ++ [⟨accept, issuerDid, .resolving⟩]) log p := by
    cases p with
    | createReceipt accept issuerDid job =>
      refine ⟨hp.1, fun j hj => ⟨?_, (hp.2 j hj).2⟩⟩
      obtain ⟨job, hjob, heq⟩ := (hp.2 j hj).1
      exact ⟨job, getElem?_concat_of hjob, heq⟩
    | destroy receipt issuerDid id =>
      obtain ⟨j, job, hlookup, hjob, hstatus⟩ := hp
      exact ⟨j, job, hlookup, getElem?_concat_of hjob, hstatus⟩
    | _ => exact hp
  refine { h with
    provider := fun _ _ => hprovider
    provisioned := fun j id accept' => (h.provisioned j id accept').trans ?_
    jobs := ?_
    receipts := ?_
    lifecycle := { h.lifecycle with forgotten := ?_ }
    allowed := fun p hp => hallowed (h.allowed p hp) }
  · constructor
    · rintro ⟨job, hjob, hrest⟩
      exact ⟨job, getElem?_concat_of hjob, hrest⟩
    · rintro ⟨job, hjob, hjaccept, hstatus⟩
      rcases getElem?_concat_eq_some hjob with hjob | ⟨-, rfl⟩
      · exact ⟨job, hjob, hjaccept, hstatus⟩
      · cases hstatus
  · intro j j' job job' hjob hjob' heq hstatus hstatus'
    rcases getElem?_concat_eq_some hjob with hjob | ⟨rfl, rfl⟩ <;>
      rcases getElem?_concat_eq_some hjob' with hjob' | ⟨rfl, rfl⟩
    · exact h.jobs j j' job job' hjob hjob' heq hstatus hstatus'
    · exact absurd (haccept job (List.mem_of_getElem? hjob) heq) hstatus
    · exact absurd (haccept job' (List.mem_of_getElem? hjob') heq.symm) hstatus'
    · rfl
  · intro created accept' j hmem
    obtain ⟨job, hjob, heq⟩ := h.receipts created accept' j hmem
    exact ⟨job, getElem?_concat_of hjob, heq⟩
  · intro receipt accept' j hmem hnone
    obtain ⟨job, id, hjob, hrest⟩ := h.lifecycle.forgotten receipt accept' j hmem hnone
    exact ⟨job, id, getElem?_concat_of hjob, hrest⟩

/-- The effects of a job that takes an answer. -/
def jobEffects (j : ℕ) (job : Job) : List Effect :=
  match job.status with
  | .settled (some id) => [.provisioned j id job.accept]
  | _ => []

theorem answerJob_eq_some {j : ℕ} {job job' : Job} {a : JobAnswer}
    (h : answerJob j job a = some (job', effects)) :
    (∀ id, job.status ≠ .settled id) ∧ job'.accept = job.accept ∧ effects = jobEffects j job' ∧
      ∀ id, job'.status = .settled (some id) → a = .provisioned (.ok id) := by
  unfold answerJob at h
  split at h
  all_goals
    split_ifs at h with hstatus
    obtain ⟨rfl, rfl⟩ := Prod.mk.inj (Option.some.inj h)
    refine ⟨fun id => by simp [hstatus], rfl, rfl, ?_⟩
    simp

theorem mem_jobEffects {j : ℕ} {job : Job} {e : Effect} : e ∈ jobEffects j job ↔
    ∃ id, e = .provisioned j id job.accept ∧ job.status = .settled (some id) := by
  unfold jobEffects
  split
  · next id heq => simp [heq]
  · next hne =>
    refine ⟨nofun, ?_⟩
    rintro ⟨id, -, heq⟩
    exact absurd heq (hne id)

theorem getElem?_set_of {j : ℕ} {job : Job} (hjob : jobs[j]? = some job) (job' : Job) (k : ℕ) :
    (jobs.set j job')[k]? = if k = j then some job' else jobs[k]? := by
  rw [List.getElem?_set]
  by_cases hk : j = k
  · rw [if_pos hk, if_pos hk.symm, if_pos (List.getElem?_eq_some_iff.1 hjob).1]
  · rw [if_neg hk, if_neg (Ne.symm hk)]

/-- A job that is not settled goes on; a VM that it provisions is new. -/
theorem Inv.setJob (h : Inv cfg ⟨contracts, jobs, pending, log⟩) {j : ℕ} {job job' : Job}
    (hjob : jobs[j]? = some job) (hstatus : ∀ id, job.status ≠ .settled id)
    (haccept : job'.accept = job.accept)
    (hfresh : ∀ id, job'.status = .settled (some id) →
      ∀ k accept, .provisioned k id accept ∉ log) :
    Inv cfg ⟨contracts, jobs.set j job', pending, log ++ jobEffects j job'⟩ := by
  have hget := getElem?_set_of hjob job'
  have hprovisioned {k id a} : .provisioned k id a ∈ log ++ jobEffects j job' ↔
      .provisioned k id a ∈ log ∨ k = j ∧ a = job'.accept ∧ job'.status = .settled (some id) := by
    rw [List.mem_append, mem_jobEffects]
    refine or_congr_right ⟨?_, ?_⟩
    · rintro ⟨id', heq, hset⟩
      cases heq
      exact ⟨rfl, rfl, hset⟩
    · rintro ⟨rfl, rfl, hset⟩
      exact ⟨id, rfl, hset⟩
  have hother {e : Effect} (he : e.provisionedFor = none) :
      e ∈ log ++ jobEffects j job' ↔ e ∈ log := by
    refine List.mem_append.trans (or_iff_left fun hmem => ?_)
    obtain ⟨id, rfl, -⟩ := mem_jobEffects.1 hmem
    cases he
  have hreceipt {created a job} : .receipt created a job ∈ log ++ jobEffects j job' ↔
      .receipt created a job ∈ log := hother rfl
  have hdestroyed {id r i} : .destroyed id r i ∈ log ++ jobEffects j job' ↔
      .destroyed id r i ∈ log := hother rfl
  have hteardown {key others} : .teardown key others ∈ log ++ jobEffects j job' ↔
      .teardown key others ∈ log := hother rfl
  -- A job keeps its accept, and a settled one is as it was.
  have hkeeps {k : ℕ} {old : Job} (hold : jobs[k]? = some old) :
      ∃ new, (jobs.set j job')[k]? = some new ∧ new.accept = old.accept := by
    rw [hget]
    split_ifs with hk
    · subst hk
      obtain rfl := Option.some.inj (hjob.symm.trans hold)
      exact ⟨job', rfl, haccept⟩
    · exact ⟨old, hold, rfl⟩
  have hsettled {k : ℕ} {old : Job} {id} (hold : jobs[k]? = some old)
      (hs : old.status = .settled id) : (jobs.set j job')[k]? = some old := by
    rw [hget, if_neg, hold]
    rintro rfl
    obtain rfl := Option.some.inj (hjob.symm.trans hold)
    exact hstatus id hs
  have hallowed {p} (hp : Allowed contracts jobs log p) :
      Allowed contracts (jobs.set j job') (log ++ jobEffects j job') p := by
    cases p with
    | createReceipt accept issuerDid k =>
      refine ⟨hp.1, fun i hi => ⟨?_, fun c a hc => (hp.2 i hi).2 c a (hreceipt.1 hc)⟩⟩
      obtain ⟨old, hold, heq⟩ := (hp.2 i hi).1
      obtain ⟨new, hnew, heq'⟩ := hkeeps hold
      exact ⟨new, hnew, heq'.trans heq⟩
    | destroy receipt issuerDid id =>
      obtain ⟨k, old, hlookup, hold, hs⟩ := hp
      exact ⟨k, old, hlookup, hsettled hold hs, hs⟩
    | _ => exact hp
  -- No VM was provisioned for the accept of a job that is not settled.
  have hnone : ∀ k id, .provisioned k id job.accept ∉ log := by
    intro k id hmem
    obtain ⟨old, hold, heq, hs⟩ := (h.provisioned k id _).1 hmem
    have hk := h.jobs k j old job hold hjob heq (by simp [hs]) (hstatus none)
    subst hk
    obtain rfl := Option.some.inj (hjob.symm.trans hold)
    exact hstatus _ hs
  refine ⟨fun _ hmem => ?_, fun k id a => ?_, ?_, ?_, ?_, ?_, ?_, ?_, ?_, ⟨?_, ?_, ?_, ?_, ?_⟩,
    fun p hp => hallowed (h.allowed p hp), h.receiving, h.deleting⟩
  · exact h.provider job (List.mem_of_getElem? hjob)
  · rw [hprovisioned, h.provisioned, hget]
    split_ifs with hk
    · subst hk
      constructor
      · rintro (⟨old, hold, -, hs⟩ | ⟨-, rfl, hs⟩)
        · obtain rfl := Option.some.inj (hjob.symm.trans hold)
          exact absurd hs (hstatus _)
        · exact ⟨job', rfl, rfl, hs⟩
      · rintro ⟨new, hnew, rfl, hs⟩
        obtain rfl := Option.some.inj hnew
        exact .inr ⟨rfl, rfl, hs⟩
    · simp [hk]
  · intro k k' old old' hold hold' heq hs hs'
    rw [hget] at hold hold'
    -- The job before has the same accept, and has not failed.
    have hbefore {k : ℕ} {new : Job} (hnew : (if k = j then some job' else jobs[k]?) = some new)
        (hs : new.status ≠ .settled none) :
        ∃ old, jobs[k]? = some old ∧ old.accept = new.accept ∧ old.status ≠ .settled none := by
      split_ifs at hnew with hk
      · subst hk
        obtain rfl := Option.some.inj hnew
        exact ⟨job, hjob, haccept.symm, hstatus none⟩
      · exact ⟨new, hnew, rfl, hs⟩
    obtain ⟨b, hb, hba, hbs⟩ := hbefore hold hs
    obtain ⟨b', hb', hba', hbs'⟩ := hbefore hold' hs'
    exact h.jobs k k' b b' hb hb' (hba.trans (heq.trans hba'.symm)) hbs hbs'
  · intro k k' id a a' hk hk'
    rw [hprovisioned] at hk hk'
    rcases hk with hk | ⟨rfl, -, hs⟩
    · rcases hk' with hk' | ⟨rfl, -, hs⟩
      · exact h.ids k k' id a a' hk hk'
      · exact absurd hk (hfresh id hs k a)
    · rcases hk' with hk' | ⟨rfl, -, -⟩
      · exact absurd hk' (hfresh id hs k' a')
      · rfl
  · intro created a k hmem
    obtain ⟨old, hold, heq⟩ := h.receipts created a k (hreceipt.1 hmem)
    obtain ⟨new, hnew, heq'⟩ := hkeeps hold
    exact ⟨new, hnew, heq'.trans heq⟩
  · simpa only [hreceipt] using h.refs
  · simpa only [hreceipt] using h.handed
  · simpa only [hreceipt] using h.contracts
  · simpa only [hdestroyed] using h.gone
  · rw [List.filterMap_append]
    refine List.nodup_append'.2 ⟨h.lifecycle.one, ?_, fun a ha ha' => ?_⟩
    · unfold jobEffects
      split <;> simp [Effect.provisionedFor]
    · obtain ⟨e, he, hea⟩ := List.mem_filterMap.1 ha
      obtain ⟨e', he', hea'⟩ := List.mem_filterMap.1 ha'
      obtain ⟨id, rfl, -⟩ := mem_jobEffects.1 he'
      cases hea'
      unfold Effect.provisionedFor at hea
      split at hea
      · cases hea
        exact hnone _ _ (haccept ▸ he)
      · cases hea
  · have hempty : (jobEffects j job').filterMap Effect.destroyedId = [] := by
      unfold jobEffects
      split <;> rfl
    rw [List.filterMap_append, hempty, List.append_nil]
    exact h.lifecycle.once
  · intro id r i hmem
    obtain ⟨k, created, a, hc, hkey, hp, hi⟩ := h.lifecycle.author id r i (hdestroyed.1 hmem)
    exact ⟨k, created, a, hreceipt.2 hc, hkey, hprovisioned.2 (.inl hp), hi⟩
  · intro r a k hmem hlookup
    obtain ⟨old, id, hold, hs, hd⟩ := h.lifecycle.forgotten r a k (hreceipt.1 hmem) hlookup
    refine ⟨old, id, hsettled hold hs, hs, fun id' hid => ?_⟩
    obtain ⟨r', i, hmem⟩ := hd id' hid
    exact ⟨r', i, hdestroyed.2 hmem⟩
  · intro key others hmem
    exact h.lifecycle.others key others (hteardown.1 hmem)

/-! ## Contracts -/

/-- The receipt is there, under a new ref. -/
theorem Inv.track (h : Inv cfg ⟨contracts, jobs, .createReceipt accept issuerDid job :: pending, log⟩)
    (hfresh : ∀ created accept job, .receipt created accept job ∈ log →
      refKey created ≠ refKey receipt) :
    Inv cfg ⟨set (refKey receipt) ⟨job, issuerDid⟩ contracts, jobs, pending,
      log ++ [.receipt receipt accept job]⟩ := by
  let effects : List Effect := [.receipt receipt accept job]
  change Inv cfg ⟨_, jobs, pending, log ++ effects⟩
  obtain ⟨⟨hissuer, hjob⟩, hallowed⟩ := List.forall_mem_cons.1 h.allowed
  have hreceipt {created a k} : .receipt created a k ∈ log ++ effects ↔
      .receipt created a k ∈ log ∨ created = receipt ∧ a = accept ∧ k = job := by
    simp [effects]
  have hother {e : Effect} (he : ∀ created a k, e ≠ .receipt created a k) :
      e ∈ log ++ effects ↔ e ∈ log :=
    List.mem_append.trans (or_iff_left fun hmem => he _ _ _ (List.mem_singleton.1 hmem))
  have hprovisioned {k id a} : .provisioned k id a ∈ log ++ effects ↔ .provisioned k id a ∈ log :=
    hother nofun
  have hdestroyed {id r i} : .destroyed id r i ∈ log ++ effects ↔ .destroyed id r i ∈ log :=
    hother nofun
  have hteardown {key others} : .teardown key others ∈ log ++ effects ↔
      .teardown key others ∈ log := hother nofun
  -- The key is that of no contract, so the other ones are looked up as before.
  have hnew {key contract} (hlookup : contracts.lookup key = some contract) :
      key ≠ refKey receipt := by
    obtain ⟨created, a, hmem, rfl, -⟩ := h.contracts key contract hlookup
    exact hfresh created a _ hmem
  have hset {key} (hkey : key ≠ refKey receipt) :
      (set (refKey receipt) ⟨job, issuerDid⟩ contracts).lookup key = contracts.lookup key := by
    rw [lookup_set, if_neg hkey]
  have hreceiving : ∀ p ∈ pending, ∀ j, p.receiving = some j → job ≠ some j := by
    rintro p hp j hpj rfl
    exact (List.nodup_cons.1 h.receiving).1 (List.mem_filterMap.2 ⟨p, hp, hpj⟩)
  refine ⟨h.provider, fun k id a => hprovisioned.trans (h.provisioned k id a), h.jobs, ?_, ?_, ?_,
    ?_, ?_, ?_, ⟨?_, ?_, ?_, ?_, ?_⟩, ?_, ?_, h.deleting⟩
  · simpa only [hprovisioned] using h.ids
  · intro created a k hmem
    rcases hreceipt.1 hmem with hmem | ⟨rfl, rfl, hk⟩
    · exact h.receipts created a k hmem
    · exact (hjob k hk.symm).1
  · intro created created' a a' k k' hmem hmem' hkey
    rcases hreceipt.1 hmem with hold | ⟨hc, ha, hk⟩ <;>
      rcases hreceipt.1 hmem' with hold' | ⟨hc', ha', hk'⟩
    · exact h.refs created created' a a' k k' hold hold' hkey
    · exact absurd (hkey.trans (congrArg refKey hc')) (hfresh _ _ _ hold)
    · exact absurd (hkey.symm.trans (congrArg refKey hc)) (hfresh _ _ _ hold')
    · exact ⟨ha.trans ha'.symm, hk.trans hk'.symm⟩
  · intro created created' a a' k hmem hmem'
    rcases hreceipt.1 hmem with hold | ⟨hc, -, hk⟩ <;>
      rcases hreceipt.1 hmem' with hold' | ⟨hc', -, hk'⟩
    · exact h.handed created created' a a' k hold hold'
    · exact absurd hold ((hjob k hk'.symm).2 _ _)
    · exact absurd hold' ((hjob k hk.symm).2 _ _)
    · rw [hc, hc']
  · intro key contract hlookup
    rw [lookup_set] at hlookup
    split_ifs at hlookup with hkey
    · obtain rfl := Option.some.inj hlookup
      exact ⟨receipt, accept, hreceipt.2 (.inr ⟨rfl, rfl, rfl⟩), hkey.symm, hissuer⟩
    · obtain ⟨created, a, hmem, hrest⟩ := h.contracts key contract hlookup
      exact ⟨created, a, hreceipt.2 (.inl hmem), hrest⟩
  · intro id r i hmem
    have hmem := hdestroyed.1 hmem
    obtain ⟨k, created, a, hc, hkey, -, -⟩ := h.lifecycle.author id r i hmem
    rw [hset (hkey ▸ hfresh created a _ hc)]
    exact h.gone id r i hmem
  · rw [List.filterMap_append]
    exact (List.append_nil _).symm ▸ h.lifecycle.one
  · rw [List.filterMap_append]
    exact (List.append_nil _).symm ▸ h.lifecycle.once
  · intro id r i hmem
    obtain ⟨k, created, a, hc, hkey, hp, hi⟩ := h.lifecycle.author id r i (hdestroyed.1 hmem)
    exact ⟨k, created, a, hreceipt.2 (.inl hc), hkey, hprovisioned.2 hp, hi⟩
  · intro r a k hmem hlookup
    rcases hreceipt.1 hmem with hmem | ⟨rfl, rfl, rfl⟩
    · rw [hset (hfresh r a _ hmem)] at hlookup
      obtain ⟨old, id, hold, hs, hd⟩ := h.lifecycle.forgotten r a k hmem hlookup
      refine ⟨old, id, hold, hs, fun id' hid => ?_⟩
      obtain ⟨r', i, hmem⟩ := hd id' hid
      exact ⟨r', i, hdestroyed.2 hmem⟩
    · rw [lookup_set, if_pos rfl] at hlookup
      cases hlookup
  · intro key others hmem
    exact h.lifecycle.others key others (hteardown.1 hmem)
  · intro p hp
    have hp' := hallowed p hp
    cases p with
    | createReceipt a i k =>
      refine ⟨hp'.1, fun j hj => ⟨(hp'.2 j hj).1, fun c a hmem => ?_⟩⟩
      rcases hreceipt.1 hmem with hmem | ⟨rfl, rfl, hk⟩
      · exact (hp'.2 j hj).2 c a hmem
      · exact hreceiving _ hp j hj hk.symm
    | awaitProvider r i k => exact (hset (hnew hp')).trans hp'
    | destroy r i id =>
      obtain ⟨k, old, hlookup, hrest⟩ := hp'
      exact ⟨k, old, (hset (hnew hlookup)).trans hlookup, hrest⟩
    | _ => exact hp'
  · exact h.receiving.sublist ((List.sublist_cons_self _ _).filterMap _)

/-- The contract is forgotten, with its VM destroyed if it has one. -/
theorem Inv.forget (h : Inv cfg ⟨contracts, jobs, pending, log⟩) {contract : ActiveContract}
    (hlookup : contracts.lookup (refKey receipt) = some contract)
    (hpending : ∀ p ∈ pending, ∀ receipt', p.deleting = some receipt' →
      refKey receipt' ≠ refKey receipt)
    (hone : effects.length ≤ 1)
    (heffects : ∀ e ∈ effects, ∃ id j job, e = .destroyed id receipt contract.acceptAuthor ∧
      contract.job = some j ∧ jobs[j]? = some job ∧ job.status = .settled (some id))
    (hsettled : ∀ j, contract.job = some j → ∃ job id, jobs[j]? = some job ∧
      job.status = .settled id ∧ ∀ id', id = some id' →
        .destroyed id' receipt contract.acceptAuthor ∈ effects) :
    Inv cfg ⟨erase (refKey receipt) contracts, jobs, pending, log ++ effects⟩ := by
  obtain ⟨created, accept, hcreated, hkey, hauthor⟩ := h.contracts _ contract hlookup
  have hother {e : Effect} (he : e.destroyedId = none) : e ∈ log ++ effects ↔ e ∈ log := by
    refine List.mem_append.trans (or_iff_left fun hmem => ?_)
    obtain ⟨id, -, -, rfl, -⟩ := heffects e hmem
    cases he
  have hprovisioned {k id a} : .provisioned k id a ∈ log ++ effects ↔ .provisioned k id a ∈ log :=
    hother rfl
  have hreceipt {c a k} : .receipt c a k ∈ log ++ effects ↔ .receipt c a k ∈ log := hother rfl
  have hteardown {key others} : .teardown key others ∈ log ++ effects ↔
      .teardown key others ∈ log := hother rfl
  have herase {key} (hne : key ≠ refKey receipt) :
      (erase (refKey receipt) contracts).lookup key = contracts.lookup key := by
    rw [lookup_erase, if_neg hne]
  have hself : (erase (refKey receipt) contracts).lookup (refKey receipt) = none := by
    rw [lookup_erase, if_pos rfl]
  have hsub : ∀ e ∈ log, e ∈ log ++ effects := fun e => List.mem_append_left effects
  -- The VM is that of the contract's job, and no other receipt is of this job.
  have hfresh {id} (hid : id ∈ effects.filterMap Effect.destroyedId) : ¬ Destroyed log id := by
    rintro ⟨r, i, hmem⟩
    obtain ⟨e, he, heid⟩ := List.mem_filterMap.1 hid
    obtain ⟨id', j, job, rfl, hj, hjob, hs⟩ := heffects e he
    cases heid
    obtain ⟨k, c, a, hc, hck, hp, -⟩ := h.lifecycle.author id r i hmem
    have hp' : .provisioned j id job.accept ∈ log := (h.provisioned j id _).2 ⟨job, hjob, rfl, hs⟩
    obtain rfl := h.ids k j id a _ hp hp'
    have hsame := h.handed c created a accept k hc (hj ▸ hcreated)
    have hgone := h.gone id r i hmem
    rw [← hck, hsame, hkey, hlookup] at hgone
    cases hgone
  refine ⟨h.provider, fun k id a => hprovisioned.trans (h.provisioned k id a), h.jobs, ?_, ?_, ?_,
    ?_, ?_, ?_, ⟨?_, ?_, ?_, ?_, ?_⟩, ?_, h.receiving, h.deleting⟩
  · simpa only [hprovisioned] using h.ids
  · simpa only [hreceipt] using h.receipts
  · simpa only [hreceipt] using h.refs
  · simpa only [hreceipt] using h.handed
  · intro key contract' hc
    rw [lookup_erase] at hc
    split_ifs at hc
    obtain ⟨c, a, hmem, hrest⟩ := h.contracts key contract' hc
    exact ⟨c, a, hsub _ hmem, hrest⟩
  · intro id r i hmem
    rcases List.mem_append.1 hmem with hmem | hmem
    · rw [lookup_erase, h.gone id r i hmem, ite_self]
    · obtain ⟨_, _, _, heq, -⟩ := heffects _ hmem
      cases heq
      exact hself
  · have hnil : effects.filterMap Effect.provisionedFor = [] := by
      refine List.filterMap_eq_nil_iff.2 fun e he => ?_
      obtain ⟨_, _, _, rfl, -⟩ := heffects e he
      rfl
    rw [List.filterMap_append, hnil, List.append_nil]
    exact h.lifecycle.one
  · rw [List.filterMap_append]
    refine List.nodup_append'.2 ⟨h.lifecycle.once, ?_, fun id hid hid' => hfresh hid' ?_⟩
    · match effects, hone with
      | [], _ => exact .nil
      | [e], _ => cases e <;> first | exact .nil | exact List.nodup_singleton _
    · obtain ⟨e, he, heid⟩ := List.mem_filterMap.1 hid
      unfold Effect.destroyedId at heid
      split at heid
      · cases heid
        exact ⟨_, _, he⟩
      · cases heid
  · intro id r i hmem
    rcases List.mem_append.1 hmem with hmem | hmem
    · obtain ⟨k, c, a, hc, hck, hp, hi⟩ := h.lifecycle.author id r i hmem
      exact ⟨k, c, a, hsub _ hc, hck, hsub _ hp, hi⟩
    · obtain ⟨id', j, job, heq, hj, hjob, hs⟩ := heffects _ hmem
      cases heq
      obtain ⟨job', hjob', haccept⟩ := h.receipts created accept j (hj ▸ hcreated)
      obtain rfl := Option.some.inj (hjob.symm.trans hjob')
      exact ⟨j, created, accept, hsub _ (hj ▸ hcreated), hkey,
        hsub _ ((h.provisioned j id accept).2 ⟨job, hjob, haccept, hs⟩), hauthor⟩
  · intro r a k hmem hnone
    have hmem := hreceipt.1 hmem
    by_cases hr : refKey r = refKey receipt
    · obtain ⟨-, hk⟩ := h.refs r created a accept _ _ hmem hcreated (hr.trans hkey.symm)
      obtain ⟨job, id, hjob, hs, hd⟩ := hsettled k hk.symm
      exact ⟨job, id, hjob, hs, fun id' hid =>
        ⟨_, _, List.mem_append_right log (hd id' hid)⟩⟩
    · rw [herase hr] at hnone
      obtain ⟨job, id, hjob, hs, hd⟩ := h.lifecycle.forgotten r a k hmem hnone
      refine ⟨job, id, hjob, hs, fun id' hid => ?_⟩
      obtain ⟨r', i, hmem⟩ := hd id' hid
      exact ⟨r', i, hsub _ hmem⟩
  · intro key others hmem
    exact h.lifecycle.others key others (hteardown.1 hmem)
  · intro p hp
    have hp' := h.allowed p hp
    cases p with
    | createReceipt a i k =>
      exact ⟨hp'.1, fun j hj => ⟨(hp'.2 j hj).1, fun c a hmem => (hp'.2 j hj).2 c a (hreceipt.1 hmem)⟩⟩
    | awaitProvider r i k => exact (herase (hpending _ hp r rfl)).trans hp'
    | destroy r i id =>
      obtain ⟨k, old, hlookup, hrest⟩ := hp'
      exact ⟨k, old, (herase (hpending _ hp r rfl)).trans hlookup, hrest⟩
    | _ => exact hp'

end

/-! ## Answers -/

/-- What a request leaves, when these other ones are pending. -/
def Result.after (r : Result) (s : State) (pending : List Pending) : State :=
  ⟨r.activeContracts, r.jobs, r.next.toList ++ pending, s.log ++ r.effects⟩

section
variable {cfg : Config} {s : State} {p q : Pending} {pending : List Pending} {a : Answer}
  {effects : List Effect} {r : Result} {accept receipt : Ref} {issuerDid : String}

theorem Inv.perm {pending' : List Pending}
    (h : Inv cfg ⟨s.activeContracts, s.jobs, pending, s.log⟩) (hperm : pending'.Perm pending) :
    Inv cfg ⟨s.activeContracts, s.jobs, pending', s.log⟩ :=
  { h with
    allowed := fun p hp => h.allowed p (hperm.mem_iff.1 hp)
    receiving := (hperm.filterMap _).nodup_iff.2 h.receiving
    deleting := ((hperm.filterMap _).map _).nodup_iff.2 h.deleting
    lifecycle := { h.lifecycle with } }

theorem Inv.rest (h : Inv cfg ⟨s.activeContracts, s.jobs, p :: pending, s.log⟩) :
    Inv cfg ⟨s.activeContracts, s.jobs, pending, s.log⟩ :=
  h.sublist (List.sublist_cons_self p pending)

theorem Inv.head (h : Inv cfg ⟨s.activeContracts, s.jobs, p :: pending, s.log⟩) :
    Allowed s.activeContracts s.jobs s.log p :=
  h.allowed p List.mem_cons_self

/-- No other request deletes the same contract. -/
theorem Inv.deleting_ne (h : Inv cfg ⟨s.activeContracts, s.jobs, p :: pending, s.log⟩)
    (hp : p.deleting = some receipt) :
    ∀ q ∈ pending, ∀ receipt', q.deleting = some receipt' → refKey receipt' ≠ refKey receipt := by
  intro q hq receipt' hqr hkey
  have hnodup := h.deleting
  rw [List.filterMap_cons_some hp, List.map_cons, List.nodup_cons] at hnodup
  exact hnodup.1 (List.mem_map.2 ⟨receipt', List.mem_filterMap.2 ⟨q, hq, hqr⟩, hkey⟩)

theorem Inv.waits (h : Inv cfg ⟨s.activeContracts, s.jobs, pending, s.log⟩) (hq : q.Plain)
    (hallowed : Allowed s.activeContracts s.jobs s.log q) :
    Inv cfg ((waits s q).after s pending) := by
  have := h.addPlain hq hallowed
  rwa [← List.append_nil s.log] at this

theorem Inv.replies (h : Inv cfg ⟨s.activeContracts, s.jobs, pending, s.log⟩)
    (issuerDid : Option String) (reply : Reply) :
    Inv cfg ((replies s issuerDid reply).after s pending) :=
  h.quiet _ (List.forall_mem_singleton.2 (.inl ⟨_, _, rfl⟩))

theorem Inv.authorize (h : Inv cfg ⟨s.activeContracts, s.jobs, pending, s.log⟩) {uri : String}
    {result : Except String Auth} {next : Auth → Pending} (hplain : ∀ auth, (next auth).Plain)
    (hallowed : ∀ auth : Auth, auth.issuerDid = atUriAuthority uri →
      Allowed s.activeContracts s.jobs s.log (next auth)) :
    Inv cfg ((authorize s uri result next).after s pending) := by
  unfold Ephemeral.authorize
  split
  · exact h.replies _ _
  · next auth =>
    split_ifs with hauthor
    · exact h.waits (hplain auth) (hallowed auth hauthor)
    · exact h.replies _ _

/-- A job's number is new, and no receipt is that of a new job. -/
theorem Inv.length_fresh (h : Inv cfg s) {created accept : Ref} :
    .receipt created accept (some s.jobs.length) ∉ s.log := by
  intro hmem
  obtain ⟨job, hjob, -⟩ := h.receipts created accept _ hmem
  exact Nat.lt_irrefl _ (List.getElem?_eq_some_iff.1 hjob).1

theorem Inv.onAccept (h : Inv cfg ⟨s.activeContracts, s.jobs, pending, s.log⟩) {rfp : Bool}
    (hissuer : issuerDid = atUriAuthority accept.uri)
    (haccept : rfp → ∀ job ∈ s.jobs, job.accept = accept → job.status = .settled none) :
    Inv cfg ((onAccept cfg s accept issuerDid rfp).after s pending) := by
  unfold Ephemeral.onAccept
  split_ifs with hrfp
  · rw [Bool.and_eq_true] at hrfp
    have hstart := h.startJob issuerDid hrfp.1 (haccept hrfp.2)
    have hnew : (s.jobs ++ [⟨accept, issuerDid, .resolving⟩])[s.jobs.length]? =
        some (⟨accept, issuerDid, .resolving⟩ : Job) := List.getElem?_concat_length
    have hadd := hstart.add (q := .createReceipt accept issuerDid (some s.jobs.length))
      ⟨hissuer, fun j hj => ?_⟩ ?_ nofun
    · rwa [← List.append_nil s.log] at hadd
    · obtain rfl := Option.some.inj hj
      exact ⟨⟨_, hnew, rfl⟩, fun _ _ => h.length_fresh⟩
    · -- The other requests create receipts for the jobs that were there.
      intro j hj p hp hpj
      obtain rfl := Option.some.inj hj
      cases p with
      | createReceipt a i k =>
        obtain ⟨⟨job, hjob, -⟩, -⟩ := (h.allowed _ hp).2 _ hpj
        exact Nat.lt_irrefl _ (List.getElem?_eq_some_iff.1 hjob).1
      | _ => cases hpj
  · have hadd := h.add (q := .createReceipt accept issuerDid none) ⟨hissuer, nofun⟩ nofun nofun
    rwa [← List.append_nil s.log] at hadd

/-- A contract is forgotten, and no other one is torn down. -/
theorem Inv.forgets (h : Inv cfg ⟨s.activeContracts, s.jobs, pending, s.log⟩)
    {contract : ActiveContract} (issuerDid : String) (effects quiet : List Effect)
    (hlookup : s.activeContracts.lookup (refKey receipt) = some contract)
    (hpending : ∀ p ∈ pending, ∀ receipt', p.deleting = some receipt' →
      refKey receipt' ≠ refKey receipt)
    (hone : effects.length ≤ 1)
    (heffects : ∀ e ∈ effects, ∃ id j job, e = .destroyed id receipt contract.acceptAuthor ∧
      contract.job = some j ∧ s.jobs[j]? = some job ∧ job.status = .settled (some id))
    (hsettled : ∀ j, contract.job = some j → ∃ job id, s.jobs[j]? = some job ∧
      job.status = .settled id ∧ ∀ id', id = some id' →
        .destroyed id' receipt contract.acceptAuthor ∈ effects)
    (hquiet : ∀ e ∈ quiet, Quiet e) :
    Inv cfg ((Ephemeral.forget s receipt issuerDid (effects ++ quiet)).after s pending) := by
  have hforget := h.forget hlookup hpending hone heffects hsettled
  have hall := hforget.quiet (quiet ++ [.replied (some issuerDid) .ok]) ?_
  · rwa [List.append_assoc, ← List.append_assoc effects] at hall
  · intro e he
    rcases List.mem_append.1 he with he | he
    · exact hquiet e he
    · exact .inl ⟨_, _, List.mem_singleton.1 he⟩

/-- A provider is torn down with its last contract only. -/
theorem quiet_teardown (halone : cfg.teardown → ∀ key ∈ keys s.activeContracts,
    key = refKey receipt) :
    ∀ e ∈ (if cfg.teardown then [Effect.teardown (refKey receipt)
      ((keys s.activeContracts).filter (· ≠ refKey receipt))] else []), Quiet e := by
  intro e he
  split_ifs at he with hteardown
  · obtain rfl := List.mem_singleton.1 he
    refine .inr ⟨refKey receipt, congrArg _ (List.filter_eq_nil_iff.2 fun key hkey => ?_)⟩
    simpa using halone hteardown key hkey
  · cases he

theorem promise_eq_some {job : Option ℕ} {id : Option ProviderId} (h : promise s job = some id) :
    job = none ∧ id = none ∨
      ∃ j jb, job = some j ∧ s.jobs[j]? = some jb ∧ jb.status = .settled id := by
  unfold promise at h
  split at h
  · exact .inl ⟨rfl, (Option.some.inj h).symm⟩
  · next j =>
    split at h
    · next heq =>
      obtain rfl := Option.some.inj h
      exact .inr ⟨j, _, rfl, heq, rfl⟩
    · cases h

/-- A `vm.delete` of the contract's author, and of nobody else, comes to the contract. -/
theorem Inv.onVmDelete (h : Inv cfg ⟨s.activeContracts, s.jobs, pending, s.log⟩)
    {event : MarketEvent}
    (hdelete : ∀ receipt, event.receipt = some receipt → ∀ p ∈ pending, ∀ receipt',
      p.deleting = some receipt' → refKey receipt' ≠ refKey receipt) :
    Inv cfg ((onVmDelete cfg s event issuerDid).after s pending) := by
  unfold Ephemeral.onVmDelete
  split
  · exact h.replies _ _
  · next receipt hreceipt =>
    have hpending := hdelete receipt hreceipt
    split
    · exact h.replies _ _
    · next contract hlookup =>
      split_ifs with hauthor hprovider
      · have hadd := h.add (q := .awaitProvider receipt issuerDid contract.job)
          (hauthor ▸ hlookup) nofun ?_
        · rwa [← List.append_nil s.log] at hadd
        · intro receipt' heq
          obtain rfl := Option.some.inj heq
          exact hpending
      · -- Without a provider there are no jobs.
        refine h.forgets issuerDid [] [] hlookup hpending (Nat.zero_le 1)
          nofun ?_ nofun
        intro j hj
        obtain ⟨created, accept, hmem, -⟩ := h.contracts _ contract hlookup
        obtain ⟨job, hjob, -⟩ := h.receipts created accept j (hj ▸ hmem)
        exact absurd (h.provider job (List.mem_of_getElem? hjob)) hprovider
      · exact h.replies _ _

theorem Inv.dispatch (h : Inv cfg ⟨s.activeContracts, s.jobs, pending, s.log⟩)
    {event : MarketEvent} {auth : Auth}
    (hdelete : ∀ receipt, event.receipt = some receipt → ∀ p ∈ pending, ∀ receipt',
      p.deleting = some receipt' → refKey receipt' ≠ refKey receipt) :
    Inv cfg ((dispatch cfg s auth event).after s pending) := by
  unfold Ephemeral.dispatch
  split
  · exact h.replies _ _
  · split_ifs
    · exact h.onVmDelete hdelete
    · exact h.replies _ _

/-- The job of a contract is settled, without a VM. -/
theorem Inv.settledNone {job : Option ℕ}
    (h : Inv cfg ⟨s.activeContracts, s.jobs, .awaitProvider receipt issuerDid job :: pending, s.log⟩)
    (hnone : promise s job = some none)
    (halone : cfg.teardown → ∀ key ∈ keys s.activeContracts, key = refKey receipt) :
    Inv cfg ((finishDelete cfg s receipt issuerDid []).after s pending) := by
  refine h.rest.forgets issuerDid [] _ h.head (h.deleting_ne rfl) (Nat.zero_le 1) nofun
    ?_ (quiet_teardown halone)
  rintro j rfl
  obtain ⟨hj, -⟩ | ⟨k, jb, hk, hjb, hs⟩ := promise_eq_some hnone
  · cases hj
  · obtain rfl := Option.some.inj hk
    exact ⟨jb, none, hjb, hs, nofun⟩

/-- The job of a contract is settled, with a VM to destroy. -/
theorem Inv.settledSome {job : Option ℕ} {id : ProviderId}
    (h : Inv cfg ⟨s.activeContracts, s.jobs, .awaitProvider receipt issuerDid job :: pending, s.log⟩)
    (hsome : promise s job = some (some id)) :
    Inv cfg ((Ephemeral.waits s (.destroy receipt issuerDid id)).after s pending) := by
  obtain ⟨-, hnone⟩ | ⟨j, jb, rfl, hjb, hs⟩ := promise_eq_some hsome
  · cases hnone
  · have hadd := h.rest.add (q := .destroy receipt issuerDid id) ⟨j, jb, h.head, hjb, hs⟩ nofun ?_
    · rwa [← List.append_nil s.log] at hadd
    · intro receipt' heq
      obtain rfl := Option.some.inj heq
      exact h.deleting_ne rfl

/-- The VM is destroyed. -/
theorem Inv.destroyed {id : ProviderId}
    (h : Inv cfg ⟨s.activeContracts, s.jobs, .destroy receipt issuerDid id :: pending, s.log⟩)
    (halone : cfg.teardown → ∀ key ∈ keys s.activeContracts, key = refKey receipt) :
    Inv cfg ((finishDelete cfg s receipt issuerDid
      [.destroyed id receipt issuerDid]).after s pending) := by
  obtain ⟨j, jb, hlookup, hjb, hs⟩ := h.head
  refine h.rest.forgets issuerDid _ _ hlookup (h.deleting_ne rfl) le_rfl ?_ ?_
    (quiet_teardown halone)
  · exact List.forall_mem_singleton.2 ⟨id, j, jb, rfl, rfl, hjb, hs⟩
  · rintro k hk
    obtain rfl := Option.some.inj hk
    refine ⟨jb, some id, hjb, hs, fun id' hid => ?_⟩
    obtain rfl := Option.some.inj hid
    exact List.mem_singleton.2 rfl

/-- A request takes an answer. -/
theorem Inv.answer {i : ℕ} (h : Inv cfg ⟨s.activeContracts, s.jobs, p :: pending, s.log⟩)
    (hp : s.pending[i]? = some p) (hsub : pending ⊆ s.pending)
    (hkept : Kept s (.answer i a)) (hcareful : Careful cfg s (.answer i a))
    (hr : answer cfg s p a = some r) : Inv cfg (r.after s pending) := by
  have hhead := h.head
  unfold Ephemeral.answer at hr
  split at hr
  · -- authorizeAccept
    obtain rfl := Option.some.inj hr
    exact h.rest.authorize (fun _ => ⟨rfl, rfl⟩) fun _ hauthor => hauthor
  · obtain rfl := Option.some.inj hr
    exact h.rest.replies _ _
  · -- resolveAccept
    obtain rfl := Option.some.inj hr
    exact h.rest.waits ⟨rfl, rfl⟩ hhead
  · -- verifyAccept
    split_ifs at hr with hok
    · subst hok
      obtain rfl := Option.some.inj hr
      refine h.rest.onAccept hhead ?_
      rintro rfl
      exact hcareful.accept i _ _ rfl hp
    · obtain rfl := Option.some.inj hr
      exact h.rest.replies _ _
  · obtain rfl := Option.some.inj hr
    exact h.rest.replies _ _
  · -- createReceipt
    next accept issuerDid job receipt =>
    obtain rfl := Option.some.inj hr
    have htrack := (h.track fun _ _ _ => hkept.refs i receipt rfl _ _ _).quiet
      [.replied (some issuerDid) (.accepted (Bidder.receiptId receipt) receipt)]
      (List.forall_mem_singleton.2 (.inl ⟨_, _, rfl⟩))
    rwa [List.append_assoc] at htrack
  · -- authorizeEvent
    obtain rfl := Option.some.inj hr
    exact h.rest.authorize (fun _ => ⟨rfl, rfl⟩) fun _ _ => trivial
  · obtain rfl := Option.some.inj hr
    exact h.rest.replies _ _
  · -- resolveEvent
    split_ifs at hr
    · obtain rfl := Option.some.inj hr
      exact h.rest.waits ⟨rfl, rfl⟩ trivial
    · obtain rfl := Option.some.inj hr
      exact h.rest.replies _ _
  · -- verifyEvent
    split_ifs at hr with hok
    · subst hok
      obtain rfl := Option.some.inj hr
      exact h.rest.dispatch fun receipt hreceipt q hq =>
        hcareful.delete i _ _ _ receipt rfl hp hreceipt q (hsub hq)
    · obtain rfl := Option.some.inj hr
      exact h.rest.replies _ _
  · -- awaitProvider
    next receipt issuerDid job =>
    obtain ⟨id, hid, rfl⟩ := Option.map_eq_some_iff.1 hr
    cases id with
    | none =>
      exact h.settledNone hid fun hteardown =>
        hcareful.alone hteardown i _ _ receipt rfl hp (if_pos hid)
    | some id => exact h.settledSome hid
  · -- destroy
    obtain rfl := Option.some.inj hr
    exact h.destroyed fun hteardown => hcareful.alone hteardown i _ _ _ rfl hp rfl
  · exact absurd rfl (hcareful.destroy i _)
  · cases hr

end

/-! ## Runs -/

theorem inv_step {cfg : Config} {s : State} {e : Event} (h : Inv cfg s) (hkept : Kept s e)
    (hcareful : Careful cfg s e) : Inv cfg (step cfg s e) := by
  have hreceive (complete : Bool) (p : Pending) (missing : String) (hp : p.Plain)
      (hallowed : Allowed s.activeContracts s.jobs s.log p) :
      Inv cfg (receive s complete p missing) := by
    unfold receive
    split_ifs
    · exact h.addPlain hp hallowed
    · exact h.quiet _ (List.forall_mem_singleton.2 (.inl ⟨_, _, rfl⟩))
  cases e with
  | submitAccept uri cid => exact hreceive _ _ _ ⟨rfl, rfl⟩ trivial
  | submitEvent uri cid record => exact hreceive _ _ _ ⟨rfl, rfl⟩ trivial
  | answer i a =>
    rw [step, resume]
    split
    · exact h
    · next p hp =>
      split
      · exact h
      · next r hr =>
        obtain ⟨hi, rfl⟩ := List.getElem?_eq_some_iff.1 hp
        exact (h.perm (List.getElem_cons_eraseIdx_perm hi)).answer hp
          (List.eraseIdx_sublist _ _).subset hkept hcareful hr
  | answerJob j a =>
    rw [step, resumeJob]
    split
    · exact h
    · next job hjob =>
      split
      · exact h
      · next job' effects hanswer =>
        obtain ⟨hstatus, haccept, rfl, hid⟩ := answerJob_eq_some hanswer
        refine h.setJob hjob hstatus haccept fun id hs => ?_
        exact hkept.ids j id (congrArg _ (hid id hs))

/-- As long as the steps are careful, the contracts and their VMs belong together. -/
theorem lifecycle_of_careful (cfg : Config) (es : List Event)
    (hes : Along (step cfg) (fun s e => Kept s e ∧ Careful cfg s e) start es) :
    Along (step cfg) (fun s e => Lifecycle (step cfg s e)) start es := by
  refine along_of_inv (fun s e hinv ⟨hkept, hcareful⟩ => ?_) (inv_start cfg) hes
  have hnext := inv_step hinv hkept hcareful
  exact ⟨hnext.lifecycle, hnext⟩

/-! ## An accept -/

def sampleConfig : Config := ⟨true, true⟩

def sampleAccept : Ref :=
  ⟨"at://did:plc:alice/com.publicdomainrelay.temp.market.accept/1",
    "bafyreibnmoc2dvo7rqpxateyui4yjo3psdplmymp7hos4zrhhcn72ebl3a"⟩

def sampleReceipt : Ref :=
  ⟨"at://did:plc:bob/com.publicdomainrelay.temp.market.receipt/1",
    "bafyreigzpkut4vzuke3hl7uyzphjufl4pyys25jveg7cvbifmmafp2iihq"⟩

/-- Alice's accept comes in. -/
def sampleSubmit : List Event :=
  [.submitAccept sampleAccept.uri sampleAccept.cid,
    .answer 0 (.auth (.ok ⟨"did:plc:alice", some "pdr_temp_market"⟩)), .answer 0 (.accept (.ok true))]

/-- The state in which its signature is verified. -/
def sampleState : State := ⟨[], [], [.verifyAccept sampleAccept "did:plc:alice" true], []⟩

/-- A VM is provisioned for it, and its receipt is created. -/
def sampleProvision : List Event :=
  [.answer 0 (.signed true), .answerJob 0 (.resolved (.ok true)),
    .answerJob 0 (.provisioned (.ok (.text "pdr-alice-1"))),
    .answer 0 (.receipt (.ok sampleReceipt))]

theorem foldl_sampleSubmit : sampleSubmit.foldl (step sampleConfig) start = sampleState := by
  decide +kernel

theorem kept_sampleSubmit : Along (step sampleConfig) Kept start sampleSubmit :=
  ⟨⟨nofun, nofun⟩, ⟨nofun, nofun⟩, ⟨nofun, nofun⟩, trivial⟩

theorem careful_of_ne {cfg : Config} {s : State} {e : Event} (he : ∀ i a, e ≠ .answer i a) :
    Careful cfg s e :=
  ⟨fun i _ _ heq => absurd heq (he i _), fun i _ _ _ _ heq => absurd heq (he i _),
    fun i _ => he i _, fun _ i a _ _ heq => absurd heq (he i a)⟩

/-- An answer that ends no deletion, and confirms no signature. -/
theorem careful_answer {cfg : Config} {s : State} {i : ℕ} {a : Answer} {p : Pending}
    (hp : s.pending[i]? = some p) (hsigned : a ≠ .signed true)
    (hdestroyed : ∀ err, a ≠ .destroyed (.error err)) (hfinishing : p.finishing s = none) :
    Careful cfg s (.answer i a) := by
  refine ⟨?_, ?_, ?_, ?_⟩
  · rintro j accept issuerDid heq
    exact absurd (Event.answer.inj heq).2 hsigned
  · rintro j ref auth event receipt heq
    exact absurd (Event.answer.inj heq).2 hsigned
  · rintro j err heq
    exact hdestroyed err (Event.answer.inj heq).2
  · rintro - j a' p' receipt heq hp' hreceipt
    obtain ⟨rfl, rfl⟩ := Event.answer.inj heq
    obtain rfl := Option.some.inj (hp.symm.trans hp')
    cases hfinishing.symm.trans hreceipt

theorem kept_sampleProvision : Along (step sampleConfig) Kept sampleState sampleProvision := by
  refine ⟨⟨nofun, nofun⟩, ⟨nofun, nofun⟩, ⟨?_, nofun⟩, ⟨nofun, ?_⟩, trivial⟩
  · rintro j id - j' accept hmem
    cases hmem
  · rintro i receipt - created accept job hmem
    have hmem : _ ∈ [Effect.provisioned 0 (.text "pdr-alice-1") sampleAccept] := hmem
    cases List.mem_singleton.1 hmem

theorem lifecycle_sample : Along (step sampleConfig)
    (fun s e => Lifecycle (step sampleConfig s e)) start (sampleSubmit ++ sampleProvision) := by
  refine lifecycle_of_careful sampleConfig _ (along_append.2 ⟨along_and.2 ⟨kept_sampleSubmit, ?_⟩,
    ?_⟩)
  · refine ⟨careful_of_ne nofun, careful_answer (p := .authorizeAccept sampleAccept) ?_ nofun nofun
      rfl, careful_answer (p := .resolveAccept sampleAccept "did:plc:alice") ?_ nofun nofun rfl,
      trivial⟩
    all_goals decide +kernel
  · rw [foldl_sampleSubmit]
    refine along_and.2 ⟨kept_sampleProvision, ⟨?_, ?_, nofun, ?_⟩, careful_of_ne nofun,
      careful_of_ne nofun, careful_answer rfl nofun nofun rfl, trivial⟩
    · rintro i accept issuerDid ⟨⟩ - job hjob
      cases hjob
    · rintro i ref auth event receipt ⟨⟩ hp
      cases hp
    · rintro - _ _ _ receipt ⟨⟩ ⟨⟩ hfinishing
      cases hfinishing

/-- The accept comes in again, and both jobs provision a VM. -/
def sampleTwice : List Event :=
  .answer 0 (.signed true) :: sampleSubmit ++
    [.answer 0 (.signed true), .answerJob 0 (.resolved (.ok true)),
      .answerJob 1 (.resolved (.ok true)), .answerJob 0 (.provisioned (.ok (.text "pdr-alice-1"))),
      .answerJob 1 (.provisioned (.ok (.text "pdr-alice-2")))]

theorem kept_sampleTwice : Along (step sampleConfig) Kept sampleState sampleTwice := by
  refine ⟨⟨nofun, nofun⟩, ⟨nofun, nofun⟩, ⟨nofun, nofun⟩, ⟨nofun, nofun⟩, ⟨nofun, nofun⟩,
    ⟨nofun, nofun⟩, ⟨nofun, nofun⟩, ⟨?_, nofun⟩, ⟨?_, nofun⟩, trivial⟩
  · rintro j id - j' accept hmem
    cases hmem
  · rintro j id ⟨⟩ j' accept hmem
    have hmem : _ ∈ [Effect.provisioned 0 (.text "pdr-alice-1") sampleAccept] := hmem
    simp at hmem

theorem lifecycle_twice : ¬ ∀ cfg es, Along (step cfg) Kept start es →
    Along (step cfg) (fun s e => Lifecycle (step cfg s e)) start es := by
  intro hall
  have hrun := hall sampleConfig (sampleSubmit ++ sampleTwice)
    (along_append.2 ⟨kept_sampleSubmit, foldl_sampleSubmit ▸ kept_sampleTwice⟩)
  have hrun := (along_append.1 hrun).2
  rw [foldl_sampleSubmit] at hrun
  obtain ⟨-, -, -, -, -, -, -, -, hlast, -⟩ := hrun
  have hone : [sampleAccept, sampleAccept].Nodup := hlast.one
  exact (List.nodup_cons.1 hone).1 (List.mem_singleton.2 rfl)

end ComputeContract.Ephemeral
