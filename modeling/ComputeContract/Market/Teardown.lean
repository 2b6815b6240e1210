import ComputeContract.Market.Logged

/-!
# Teardown

A run deletes the VM or its log shows a failure after the accept is answered. The receipt and
the VM are used before the teardown, and only what throws there keeps a run from it.

* `teardown_logs`: a teardown deletes the VM or its log shows a failure;
* `no_leak_iff`: the VM is deleted exactly when nothing fails after the accept is answered.
-/

namespace ComputeContract.Requester

open AssocList Attest Market

section
variable {w : World} {α : Type}

/-! ## The VM -/

/-- The steps after the accept are quiet, deliver nothing and throw when one fails. -/
structure Calm (e : Effect) : Prop extends Quiet e where
  deliver : e.delivers = false

theorem pollSshReady_calm : ∀ fuel : ℕ, Task.AppendsAll Calm (pollSshReady w fuel)
  | 0 => .forever
  | fuel + 1 => by
    refine (look_appends _).bind fun before => ?_
    split
    · refine (act_appends fun _ => ⟨⟨rfl, rfl, rfl⟩, rfl⟩).bind fun code => ?_
      split
      · exact .pure true
      · exact pollSshReady_calm fuel
    · exact .pure false

theorem pollSshReady_shows : ∀ fuel : ℕ, Task.Shows (fun e => e.fails = true) (pollSshReady w fuel)
  | 0 => .forever
  | fuel + 1 => by
    refine (look_shows _).bind fun before => ?_
    split
    · refine (act_shows (fun _ => rfl) fun _ => rfl).bind fun code => ?_
      split
      · exact .pure true
      · exact pollSshReady_shows fuel
    · exact .pure false

theorem callCallback_calm (given : Bool) (name : String) :
    Task.AppendsAll Calm (callCallback w given name) := by
  unfold callCallback
  split
  · exact act_appends fun _ => ⟨⟨rfl, rfl, rfl⟩, rfl⟩
  · exact .pure ()

theorem callCallback_shows (given : Bool) (name : String) :
    Task.Shows (fun e => e.fails = true) (callCallback w given name) := by
  unfold callCallback
  split
  · exact act_shows (fun _ => rfl) fun _ => rfl
  · exact .pure ()

theorem useVm_calm (opts : Options) (fuel : ℕ) (receiptOk : Bool) :
    Task.AppendsAll Calm (useVm w opts fuel receiptOk) := by
  unfold useVm
  split
  · exact .pure ()
  · refine (pollSshReady_calm fuel).bind fun ready => ?_
    split
    · exact (callCallback_calm _ _).bind fun _ =>
        (act_appends fun _ => ⟨⟨rfl, rfl, rfl⟩, rfl⟩).bind fun _ => callCallback_calm _ _
    · exact .pure ()

theorem useVm_shows (opts : Options) (fuel : ℕ) (receiptOk : Bool) :
    Task.Shows (fun e => e.fails = true) (useVm w opts fuel receiptOk) := by
  unfold useVm
  split
  · exact .pure ()
  · refine (pollSshReady_shows fuel).bind fun ready => ?_
    split
    · exact (callCallback_shows _ _).bind fun _ =>
        (act_shows (fun _ => rfl) fun _ => rfl).bind fun _ => callCallback_shows _ _
    · exact .pure ()

theorem checkReceipt_calm (accept : Ref) (receipt : Receipt) :
    Task.AppendsAll Calm (checkReceipt w accept receipt) := by
  unfold checkReceipt
  split
  · exact (act_appends fun _ => ⟨⟨rfl, rfl, rfl⟩, rfl⟩).tryCatch fun _ => .pure false
  · exact .pure false

/-! ## The deletion -/

/-- Something has failed and nothing is delivered. -/
def Undelivered (log : Log) : Prop :=
  (∃ e ∈ log, e.fails = true) ∧ ∀ e ∈ log, e.delivers = false

theorem Undelivered.prepend {log log' : Log} (h : ∀ e ∈ log, e.delivers = false)
    (hlog' : Undelivered log') : Undelivered (log ++ log') := by
  obtain ⟨⟨e, he, hfails⟩, hnone⟩ := hlog'
  exact ⟨⟨e, List.mem_append_right log he, hfails⟩, List.forall_mem_append.2 ⟨h, hnone⟩⟩

/-- The call that submits the event. -/
def submitEffects (target : Target) (event : Ref) (record : RecordMap) (res : Response) : Log :=
  [.serviceAuth target.audDid SUBMIT_EVENT_NSID (.ok ()),
    .posted target SUBMIT_EVENT_NSID (submitEventBody event record) (.ok res)]

theorem callSubmitEvent_logs (target : Target) (event : Ref) (record : RecordMap) :
    Task.Logs (callBidder w target SUBMIT_EVENT_NSID SUBMIT_EVENT_NSID
      (submitEventBody event record)) fun o t =>
        o = .running ∨ (∃ res, t = submitEffects target event record res) ∨ Undelivered t := by
  refine (callBidder_logs target _ _ _).conseq ?_
  rintro o t (⟨e, -, rfl⟩ | ⟨e, -, rfl⟩ | ⟨res, -, rfl⟩ | rfl)
  · exact .inr (.inr ⟨⟨_, List.mem_singleton_self _, rfl⟩, List.forall_mem_singleton.2 rfl⟩)
  · exact .inr (.inr ⟨⟨_, List.mem_cons_of_mem _ (List.mem_singleton_self _), rfl⟩,
      List.forall_mem_cons.2 ⟨rfl, List.forall_mem_singleton.2 rfl⟩⟩)
  · exact .inr (.inl ⟨res, rfl⟩)
  · exact .inl rfl

/-- The event is submitted, or there is nowhere to, or something has failed. -/
theorem submitEvent_logs (receipt : Receipt) (event : Ref) (record : RecordMap) :
    Task.Logs (submitEvent w receipt event record) fun o t => o = .running ∨
      t = [.resolved receipt.submitEvent (.ok none)] ∨
      (∃ target res, t = .resolved receipt.submitEvent (.ok (some target)) ::
        submitEffects target event record res) ∨
      Undelivered t := by
  refine Task.Logs.bind act_logs (S := fun target o t => o = .running ∨ target = none ∧ t = [] ∨
    ∃ found, target = some found ∧ ((∃ res, t = submitEffects found event record res) ∨
      Undelivered t)) (fun target => ?_) ?_ ?_ ?_
  · cases target with
    | none => exact .pure (.inr (.inl ⟨rfl, rfl⟩))
    | some found =>
      refine Task.Logs.bind (callSubmitEvent_logs found event record)
        (fun _ => Task.Logs.pure (R := fun _ t => t = []) rfl) ?_ ?_ fun _ _ => .inl rfl
      · rintro _ t o _ (h | h) rfl
        · cases h
        · rw [List.append_nil]
          exact .inr (.inr ⟨found, rfl, h⟩)
      · rintro _ t (h | h)
        · cases h
        · exact .inr (.inr ⟨found, rfl, h⟩)
  · rintro target _ o t' (⟨_, h, rfl⟩ | ⟨_, h, -⟩ | ⟨h, -⟩) ht'
    · obtain rfl := Outcome.ok.inj h
      rcases ht' with rfl | ⟨rfl, rfl⟩ | ⟨found, rfl, ⟨res, rfl⟩ | ht'⟩
      · exact .inl rfl
      · exact .inr (.inl rfl)
      · exact .inr (.inr (.inl ⟨found, res, rfl⟩))
      · exact .inr (.inr (.inr (ht'.prepend (List.forall_mem_singleton.2 rfl))))
    · cases h
    · cases h
  · rintro e _ (⟨_, h, -⟩ | ⟨_, -, rfl⟩ | ⟨h, -⟩)
    · cases h
    · exact .inr (.inr (.inr ⟨⟨_, List.mem_singleton_self _, rfl⟩, List.forall_mem_singleton.2 rfl⟩))
    · cases h
  · exact fun _ _ => .inl rfl

/-- Creating a record: its effects, or a failure. -/
theorem createSigned_logs (collection : String) (record : RecordMap) :
    Task.Logs (createSignedRepoRecord w collection record) fun o t => o = .running ∨
      (∃ rkey entry cid, o = .ok ⟨recordUri w collection rkey, cid.getD ""⟩ ∧
        t = createEffects collection record rkey entry cid) ∨
      (∃ e, o = .error e) ∧ Undelivered t := by
  have happends : Task.AppendsAll (fun e => e.delivers = false)
      (createSignedRepoRecord w collection record) :=
    createSignedRepoRecord_appends record (fun _ => rfl) (fun _ _ _ => rfl) fun _ _ => rfl
  refine (happends.and ((createSignedRepoRecord_shows collection record).and
    (createSignedRepoRecord_gives collection record))).conseq ?_
  rintro o t ⟨hnone, ⟨-, herror⟩, hgives⟩
  cases o with
  | ok ref =>
    obtain ⟨rkey, entry, cid, rfl, ht⟩ := hgives ref rfl
    exact .inr (.inl ⟨rkey, entry, cid, rfl, ht⟩)
  | error e => exact .inr (.inr ⟨⟨e, rfl⟩, herror e rfl, hnone⟩)
  | running => exact .inl rfl

theorem created_of_effects (log : Log) (collection : String) (record : RecordMap) (rkey : String)
    (entry : RecordMap) (cid : Option String) :
    Created w (createEffects collection record rkey entry cid ++ log) collection record
      ⟨recordUri w collection rkey, cid.getD ""⟩ :=
  ⟨rkey, entry, cid, by simp [createEffects], by simp [createEffects], by simp [createEffects], rfl⟩

theorem Created.mono {log log' : Log} {collection : String} {record : RecordMap} {ref : Ref}
    (h : ∀ e ∈ log, e ∈ log') :
    Created w log collection record ref → Created w log' collection record ref := by
  rintro ⟨rkey, entry, cid, hattested, happlied, hread, rfl⟩
  exact ⟨rkey, entry, cid, h _ hattested, h _ happlied, h _ hread, rfl⟩

theorem Submitted.mono {receipt : Receipt} {log after after' : Log} {event : Ref}
    {record : RecordMap} (h : ∀ e ∈ after, e ∈ after') :
    Submitted receipt log after event record → Submitted receipt log after' event record := by
  rintro (⟨target, res, hresolved, hfilter⟩ | ⟨hresolved, hfilter⟩)
  · exact .inl ⟨target, res, h _ hresolved, hfilter⟩
  · exact .inr ⟨h _ hresolved, hfilter⟩

/-- An event that is created and submitted once. -/
theorem createEvent_logs (receipt : Receipt) (record : RecordMap) :
    Task.Logs (createSignedRepoRecord w EVENT_NSID record >>= fun event =>
        submitEvent w receipt event record) fun o t => o = .running ∨
      (∃ event, Created w t EVENT_NSID record event ∧ t.countP Effect.isEvent = 1 ∧
        Submitted receipt t t event record ∧ ∀ e ∈ t, e.fails = false) ∨
      Undelivered t := by
  refine Task.Logs.bind (createSigned_logs EVENT_NSID record)
    (fun event => submitEvent_logs receipt event record) ?_ ?_ fun _ _ => .inl rfl
  · rintro event _ o t' (h | ⟨rkey, entry, cid, h, rfl⟩ | ⟨⟨e, h⟩, -⟩) ht'
    · cases h
    · obtain rfl := Outcome.ok.inj h
      have hcreated := fun log => created_of_effects (w := w) log EVENT_NSID record rkey entry cid
      rcases ht' with rfl | rfl | ⟨target, res, rfl⟩ | ht'
      · exact .inl rfl
      · refine .inr (.inl ⟨_, hcreated _, rfl, .inr ⟨by simp, rfl⟩, ?_⟩)
        simp [createEffects, Effect.fails, isError]
      · refine .inr (.inl ⟨_, hcreated _, rfl, .inl ⟨target, res, by simp, rfl⟩, ?_⟩)
        simp [createEffects, Effect.fails, isError, submitEffects]
      · refine .inr (.inr (ht'.prepend ?_))
        simp [createEffects, Effect.delivers]
    · cases h
  · rintro e t (h | ⟨_, _, _, h, -⟩ | ⟨-, ht⟩)
    · cases h
    · cases h
    · exact .inr (.inr ht)

/-- What delivers nothing deletes nothing. -/
theorem not_deleted_of_undelivered {receipt : Receipt} {log : Log} {del event : Ref} {now : String}
    (h : ∀ e ∈ log, e.delivers = false) : ¬ Deleted w receipt log log del event now := by
  rintro ⟨-, -, -, ⟨target, res, -, hfilter⟩ | ⟨hresolved, -⟩⟩
  · have hmem : Effect.posted target SUBMIT_EVENT_NSID
        (submitEventBody event (eventRecord receipt del now)) (.ok res) ∈ log :=
      List.mem_of_mem_filter (hfilter ▸ List.mem_singleton_self _)
    have hdelivers : decide (SUBMIT_EVENT_NSID = SUBMIT_EVENT_NSID) = true := decide_eq_true rfl
    cases hdelivers.symm.trans (h _ hmem)
  · cases h _ hresolved

/-- The deletion is there and nothing has failed, or something has and it is not. -/
def Settled (w : World) (receipt : Receipt) {α : Type} (o : Outcome String α) (log : Log) : Prop :=
  o = .running ∨
    (∃ del event now, Deleted w receipt log log del event now) ∧ (∀ e ∈ log, e.fails = false) ∨
    Undelivered log

theorem look_bind {β : Type} {f : Log → α} {g : α → Run β} {R : Outcome String β → Log → Prop}
    (h : ∀ a, Task.Logs (g a) R) : Task.Logs (look f >>= g) R :=
  fun log => h (f log) log

theorem deleteVm_logs (receipt : Receipt) :
    Task.Logs (deleteVm w receipt) (Settled w receipt) := by
  refine look_bind fun now => Task.Logs.bind (createSigned_logs _ _)
    (fun del => createEvent_logs receipt (eventRecord receipt del now)) ?_ ?_ fun _ _ => .inl rfl
  · rintro del _ o t' (h | ⟨rkey, entry, cid, h, rfl⟩ | ⟨⟨e, h⟩, -⟩) ht'
    · cases h
    · obtain rfl := Outcome.ok.inj h
      rcases ht' with rfl | ⟨event, hcreated, honce, hsubmitted, hfails⟩ | ht'
      · exact .inl rfl
      · have hdeleted : Deleted w receipt t'
            (createEffects _ (vmDeleteRecord now) rkey entry cid ++ t')
            ⟨recordUri w _ rkey, cid.getD ""⟩ event now :=
          ⟨created_of_effects t' _ _ rkey entry cid,
            hcreated.mono fun e => List.mem_append_right _, honce,
            hsubmitted.mono fun e => List.mem_append_right _⟩
        refine .inr (.inl ⟨⟨_, event, now, (Deleted.prepend_iff ?_).2 hdeleted⟩, ?_⟩)
        · simp [createEffects, Effect.isEvent, Effect.isSubmit]
          decide
        · refine List.forall_mem_append.2 ⟨?_, hfails⟩
          simp [createEffects, Effect.fails, isError]
      · refine .inr (.inr (ht'.prepend ?_))
        simp [createEffects, Effect.delivers]
    · cases h
  · rintro e t (h | ⟨_, _, _, h, -⟩ | ⟨-, ht⟩)
    · cases h
    · cases h
    · exact .inr (.inr ht)

/-- A teardown deletes the VM or its log shows a failure. -/
theorem teardown_logs {opts : Options} {receipt : Receipt}
    (hdelete : opts.noDelete.getD false = false) (hcomplete : receipt.complete) :
    Task.Logs (teardown w opts receipt) (Settled w receipt) := by
  have hskip : (opts.noDelete.getD false || !receipt.complete) = false := by
    rw [hdelete, hcomplete]
    rfl
  rw [teardown, hskip]
  refine Task.Logs.tryCatch (deleteVm_logs receipt)
    (fun _ => Task.Logs.pure (R := fun _ t => t = []) rfl) ?_ ?_ fun _ _ => .inl rfl
  · exact fun _ _ ht => ht
  · rintro e t o _ (h | ht) rfl
    · cases h
    · rw [List.append_nil]
      exact .inr ht

/-! ## The run -/

/-- Steps before the teardown either come to it or show a failure. -/
theorem settled_bind {β : Type} {receipt : Receipt} {x : Run α} {f : α → Run β}
    (hcalm : Task.AppendsAll Calm x) (hshows : Task.Shows (fun e => e.fails = true) x)
    (hf : ∀ a, Task.Logs (f a) (Settled w receipt)) :
    Task.Logs (x >>= f) (Settled w receipt) := by
  refine Task.Logs.bind (hcalm.and hshows) hf ?_ ?_ fun _ _ => .inl rfl
  · rintro a t o t' ⟨hcalm, hok, -⟩ (rfl | ⟨⟨del, event, now, hdeleted⟩, hfails⟩ | ht')
    · exact .inl rfl
    · refine .inr (.inl ⟨⟨del, event, now, ?_⟩, List.forall_mem_append.2 ⟨?_, hfails⟩⟩)
      · obtain ⟨hpayload, hcreated, honce, hsubmitted⟩ := hdeleted
        refine (Deleted.prepend_iff fun e he => ⟨(hcalm e he).event, (hcalm e he).submit⟩).2 ?_
        exact ⟨hpayload.mono fun e => List.mem_append_right _,
          hcreated.mono fun e => List.mem_append_right _, honce,
          hsubmitted.mono fun e => List.mem_append_right _⟩
      · exact fun e he => Bool.eq_false_iff.2 (hok a rfl e he)
    · exact .inr (.inr (ht'.prepend fun e he => (hcalm e he).deliver))
  · rintro e t ⟨hcalm, -, herror⟩
    exact .inr (.inr ⟨herror e rfl, fun e he => (hcalm e he).deliver⟩)

theorem finish_logs {opts : Options} (fuel : ℕ) (vm rfp accept : Ref) (winner : CollectedBid)
    (bids : ℕ) {receipt : Receipt} (hdelete : opts.noDelete.getD false = false)
    (hcomplete : receipt.complete) :
    Task.Logs (finish w opts fuel vm rfp accept winner bids receipt) (Settled w receipt) := by
  refine settled_bind (checkReceipt_calm accept receipt) (checkReceipt_shows accept receipt)
    fun receiptOk => settled_bind (useVm_calm opts fuel receiptOk) (useVm_shows opts fuel receiptOk)
    fun _ => ?_
  refine Task.Logs.bind (teardown_logs hdelete hcomplete)
    (fun _ => Task.Logs.pure (R := fun o t => (∃ r, o = .ok r) ∧ t = []) ⟨⟨_, rfl⟩, rfl⟩) ?_ ?_
    fun _ _ => .inl rfl
  · rintro _ t o _ (h | ht) ⟨⟨r, rfl⟩, rfl⟩
    · cases h
    · rw [List.append_nil]
      exact .inr ht
  · rintro e t (h | ht)
    · cases h
    · exact .inr ht

/-- Without a receipt there is nothing to delete. -/
theorem finish_quiet {opts : Options} (fuel : ℕ) (vm rfp accept : Ref) (winner : CollectedBid)
    (bids : ℕ) {receipt : Receipt} (hcomplete : receipt.complete = false) :
    Task.AppendsAll Quiet (finish w opts fuel vm rfp accept winner bids receipt) := by
  have hquiet : ∀ {β : Type} {x : Run β}, Task.AppendsAll Calm x → Task.AppendsAll Quiet x :=
    fun h => h.conseq fun _ _ ht e he => (ht e he).toQuiet
  refine (hquiet (checkReceipt_calm accept receipt)).bind fun receiptOk =>
    (hquiet (useVm_calm opts fuel receiptOk)).bind fun _ => .bind ?_ fun _ => .pure _
  rw [teardown, hcomplete, Bool.not_false, Bool.or_true]
  exact .pure ()

/-- After a complete answer the deletion decides, and without one there is nothing to delete. -/
theorem sound_of_accept {β : Type} {receipt : Receipt} {o : Outcome String β} {log log' : Log}
    (hquiet : ∀ e ∈ log, e.isEvent = false ∧ e.isSubmit = false)
    (hafter : afterAccept log = if receipt.complete then some (receipt, []) else none)
    (hlog' : if receipt.complete then Settled w receipt o log' else ∀ e ∈ log', Quiet e) :
    Sound w o (log ++ log') := by
  intro ho
  split_ifs at hafter hlog' with hcomplete
  · have hsome : afterAccept (log ++ log') = some (receipt, log') := afterAccept_append_of_some hafter _
    rw [noLeak_of_some hsome, hsome]
    rcases hlog' with h | ⟨⟨del, event, now, hdeleted⟩, hfails⟩ | ⟨⟨e, he, hfails⟩, hnone⟩
    · exact absurd h ho
    · refine iff_of_true ⟨del, event, now, (Deleted.prepend_iff hquiet).2 hdeleted⟩ ?_
      rintro _ _ ⟨⟩
      exact hfails
    · refine iff_of_false ?_ fun h => ?_
      · rintro ⟨del, event, now, hdeleted⟩
        exact not_deleted_of_undelivered hnone ((Deleted.prepend_iff hquiet).1 hdeleted)
      · exact absurd hfails (Bool.eq_false_iff.1 (h receipt log' rfl e he))
  · have hnone : afterAccept (log ++ log') = none :=
      (afterAccept_append_of_none hafter log').trans
        (afterAccept_of_none fun e he => (hlog' e he).answer)
    rw [noLeak_of_none hnone, hnone]
    refine iff_of_true (List.forall_mem_append.2 ⟨hquiet, ?_⟩) fun _ _ h => nomatch h
    exact fun e he => ⟨(hlog' e he).event, (hlog' e he).submit⟩

theorem runComputeContract_logs {opts : Options} (fuel : ℕ)
    (hdelete : opts.noDelete.getD false = false) :
    Task.Logs (runComputeContract w opts fuel) (Sound w) := by
  refine sound_bind (offer_quiet opts) fun refs => look_bind fun bids => ?_
  cases bids with
  | nil => exact .pure (sound_of_quiet _ (List.forall_mem_nil _))
  | cons first bids =>
    refine sound_bind (.ofExcept _) fun winner => look_bind fun now =>
      sound_bind (createSigned_quiet (by decide) _) fun accept => ?_
    refine Task.Logs.bind (submitAccept_logs accept winner)
      (S := fun receipt o t => if receipt.complete then Settled w receipt o t else ∀ e ∈ t, Quiet e)
      (fun receipt => ?_) ?_ ?_ fun _ _ ho => absurd rfl ho
    · split
      · next hcomplete => exact finish_logs fuel _ _ _ _ _ hdelete hcomplete
      · next hcomplete => exact finish_quiet fuel _ _ _ _ _ (Bool.eq_false_iff.2 hcomplete)
    · rintro receipt t o t' (h | ⟨hquiet, hok, -⟩) ht'
      · cases h
      · exact sound_of_accept hquiet (hok receipt rfl) ht'
    · rintro e t (h | ⟨hquiet, -, herror⟩)
      · cases h
      · intro _
        rw [noLeak_of_none (herror e rfl), herror e rfl]
        exact iff_of_true hquiet fun _ _ h => nomatch h

/-- In every run that ends, without `noDelete`, the VM is deleted exactly when nothing fails after
    the accept is answered. -/
theorem no_leak_iff {opts : Options} {fuel : ℕ} {o : Outcome String Result} {log : Log}
    (hdelete : opts.noDelete.getD false = false)
    (h : runComputeContract w opts fuel [] = (o, log)) (ho : o ≠ .running) :
    NoLeak w log ↔ ∀ receipt after, afterAccept log = some (receipt, after) →
      ∀ e ∈ after, e.fails = false := by
  obtain ⟨t, ht, hsound⟩ := runComputeContract_logs fuel hdelete []
  rw [h] at ht hsound
  obtain rfl : log = t := ht
  exact hsound ho

end

/-! ## Two runs -/

def sampleEndpoint : Value := .text "http://bidder.example"

def sampleBid : CollectedBid :=
  ⟨"did:plc:bob", "at://did:plc:bob/com.publicdomainrelay.temp.market.bid/1",
    "bafyreifhu2mkxot7xtcpuqtxd2cumxavbbeg325dqybbskwbovbqmyzdl4",
    [("submitAccept", sampleEndpoint)]⟩

def sampleReceipt : Receipt :=
  ⟨some (.text "at://did:plc:bob/com.publicdomainrelay.temp.market.receipts.free/1"),
    some (.text "bafyreigzpkut4vzuke3hl7uyzphjufl4pyys25jveg7cvbifmmafp2iihq"), some sampleEndpoint⟩

/-- Every record that Alice writes has the key `1`. -/
def sampleRef (collection : String) : Ref :=
  ⟨"at://did:plc:alice/" ++ collection ++ "/1",
    "bafyreibnmoc2dvo7rqpxateyui4yjo3psdplmymp7hos4zrhhcn72ebl3a"⟩

/-- Bob's bid is the only one, he answers the accept, and `ssh` runs. -/
def sampleWorld (servers : Outcome String Market.World) (callback : Outcome String Unit) : World where
  did := "did:plc:alice"
  primitives := samplePrimitives
  keyResolver := parseDidKey samplePrimitives
  now _ := "2025-01-01T00:00:00.000Z"
  nextTid _ := "1"
  relayReady _ := .ok "alice"
  sshKeygen _ := .ok "ssh-ed25519 key"
  userData _ _ publicKey := publicKey
  sign _ := .ok (sampleEntry aliceKey)
  applyWrites _ := .ok ()
  getRecord _ := .ok (some (sampleRef "").cid)
  vouches _ := .ok []
  registries _ := .ok []
  offerings _ := .ok []
  didDocument _ := .ok none
  urlHost _ := .ok "bidder.example"
  signServiceAuth _ := .ok ()
  fetch _ := .ok ⟨200, true, some (.object [("uri", sampleReceipt.uri.getD .null),
    ("cid", sampleReceipt.cid.getD .null), ("submitEvent", sampleEndpoint)])⟩
  pendingBids _ := [sampleBid]
  numberLt _ _ := .ok false
  servers _ := servers
  beforeDeadline _ := true
  ssh _ := .ok 0
  callback _ := callback

def sampleOptions : Options := ⟨none, none, none, none, none, true, true⟩

/-- The log of the run. -/
def sampleLog (servers : Outcome String Market.World) (callback : Outcome String Unit) : Log :=
  (runComputeContract (sampleWorld servers callback) sampleOptions 1 []).2

/-- The receipt is not verified, and the VM is deleted. -/
theorem no_leak_sample :
    (afterAccept (sampleLog (.error "no server") (.ok ()))).isSome ∧
      NoLeak (sampleWorld (.error "no server") (.ok ()))
        (sampleLog (.error "no server") (.ok ())) := by
  have hfails : ((afterAccept (sampleLog (.error "no server") (.ok ()))).map
      fun answer => answer.2.all fun e => !e.fails) = some true := by
    decide +kernel
  obtain ⟨r, hr⟩ : ∃ r, runComputeContract (sampleWorld (.error "no server") (.ok ()))
      sampleOptions 1 [] = (.ok r, sampleLog (.error "no server") (.ok ())) := ⟨_, rfl⟩
  refine ⟨by decide +kernel, (no_leak_iff rfl hr fun h => nomatch h).2 fun receipt after h e he => ?_⟩
  rw [h] at hfails
  exact (Bool.not_eq_true' _).mp (List.all_eq_true.1 (Option.some.inj hfails) e he)

/-- The accept as it was written, and the receipt for it. -/
def sampleAccept : RecordMap :=
  withSignature (acceptRecord "did:plc:alice" (sampleRef RFP_NSID) sampleBid
    "2025-01-01T00:00:00.000Z") (sampleEntry aliceKey)

def receiptMetadata : RecordMap :=
  [("$type", .text "com.publicdomainrelay.temp.market.receipts.free")]

def sampleProof (declared : String) : RecordMap :=
  receiptMetadata ++ [("cid", .text declared),
    ("signatures", .array [.object (sampleEntry bidderKey)])]

def cidText : Except String Cid → String
  | .ok cid => cid.toString
  | .error _ => ""

/-- The CID of the accept in its repository with the receipt's metadata. -/
def sampleDeclared : String :=
  cidText (createAttestationCid sampleEncode sampleAccept receiptMetadata "did:plc:alice" none)

def sampleServers : Market.World :=
  Resolver.serve fun n =>
    if n = 0 then
      ⟨sampleProof sampleDeclared,
        "at://did:plc:bob/com.publicdomainrelay.temp.market.receipts.free/1", none⟩
    else ⟨sampleAccept, (sampleRef ACCEPT_NSID).uri, none⟩

theorem sampleDeclared_eq : ∃ cid, createAttestationCid sampleEncode sampleAccept receiptMetadata
    "did:plc:alice" none = .ok cid ∧ sampleDeclared = cid.toString ∧
      Cbor.plainText sampleDeclared := by
  obtain ⟨prepared, hpre, hplain⟩ : ∃ prepared, preimage sampleAccept receiptMetadata
      "did:plc:alice" none = .ok prepared ∧ Cbor.plain (.object prepared) :=
    ⟨_, rfl, by decide +kernel⟩
  obtain ⟨bytes, hbytes, -⟩ := Cbor.decode_encode hplain
  have hencode : sampleEncode (.object prepared) = .ok bytes := (if_pos hplain).trans hbytes
  have hcid : createAttestationCid sampleEncode sampleAccept receiptMetadata "did:plc:alice" none =
      .ok (cidForBytes bytes) :=
    bind_eq_ok.2 ⟨prepared, hpre, bind_eq_ok.2 ⟨bytes, hencode, rfl⟩⟩
  have hdeclared : sampleDeclared = (cidForBytes bytes).toString := congrArg cidText hcid
  exact ⟨_, hcid, hdeclared, hdeclared ▸ plainText_cidForBytes bytes⟩

theorem sampleProof_signed : verifyRecordSignatures samplePrimitives (parseDidKey samplePrimitives)
    none (sampleProof sampleDeclared) "did:plc:bob" := by
  obtain ⟨-, -, -, hplain⟩ := sampleDeclared_eq
  refine sample_signed (sampleKey_mem _) rfl rfl (Cbor.plain_object.2 ⟨?_, ?_, rfl, ?_⟩)
  · exact (by decide : 3 < 2 ^ 31)
  · exact (by decide : ["$type", "cid", "$sig"].Nodup)
  · exact Cbor.plainFields_cons (by decide +kernel) (by decide +kernel)
      (Cbor.plainFields_cons (by decide +kernel) hplain (by decide +kernel))

theorem sampleReceipt_verifies (callback : Outcome String Unit) :
    receiptVerifies (sampleWorld (.ok sampleServers) callback) (sampleRef ACCEPT_NSID) sampleReceipt
      sampleServers = .ok true := by
  obtain ⟨s₁, h₁, hproof⟩ := Resolver.resolve_serve _
    (rfl : (RecordRef.mk sampleReceipt.uri sampleReceipt.cid).uri = _) ⟨[], 0⟩
  obtain ⟨s₂, -, hsubject⟩ := Resolver.resolve_serve _
    (rfl : (RecordRef.mk (some (.text (sampleRef ACCEPT_NSID).uri))
      (some (.text (sampleRef ACCEPT_NSID).cid))).uri = _) s₁
  rw [h₁] at hsubject
  refine bind_eq_ok.2 ⟨(_, s₁), hproof, bind_eq_ok.2 ⟨(_, s₂), hsubject, ?_⟩⟩
  obtain ⟨cid, hcid, hdeclared, -⟩ := sampleDeclared_eq
  have hbind : verifyRemoteProof samplePrimitives sampleAccept "did:plc:alice"
      (sampleProof sampleDeclared) :=
    verifyRemoteProof_of_cid rfl rfl hcid hdeclared
  simp only [Resolver.stripResolved_annotate]
  exact congrArg₂ (fun a b => Except.ok (a && b)) sampleProof_signed hbind

/-- The receipt is verified, and `onSshStart` throws. -/
theorem sampleRun_throws : ∃ o log, afterAccept log = some (sampleReceipt,
      [.verified sampleReceipt.uri (.ok true), .ssh (.ok 0), .callback "onSshStart" (.error "thrown")]) ∧
    runComputeContract (sampleWorld (.ok sampleServers) (.error "thrown")) sampleOptions 1 [] =
      (.error o, log) := by
  let w := sampleWorld (.ok sampleServers) (.error "thrown")
  obtain ⟨t₁, ht₁, hquiet₁⟩ := offer_quiet (w := w) sampleOptions []
  have hoffer : offer w sampleOptions [] =
      (.ok (sampleRef COMPUTE_VM_NSID, sampleRef RFP_NSID), t₁) := Prod.ext rfl ht₁
  let record := acceptRecord w.did (sampleRef RFP_NSID) sampleBid "2025-01-01T00:00:00.000Z"
  obtain ⟨t₂, ht₂, hquiet₂⟩ := createSigned_quiet (w := w) (by decide : ACCEPT_NSID ≠ EVENT_NSID)
    record t₁
  have hcreate : createSignedRepoRecord w ACCEPT_NSID record t₁ =
      (.ok (sampleRef ACCEPT_NSID), t₁ ++ t₂) := Prod.ext rfl ht₂
  obtain ⟨t₃, ht₃, hlogged⟩ := submitAccept_logs (w := w) (sampleRef ACCEPT_NSID) sampleBid (t₁ ++ t₂)
  have hsubmit : submitAccept w (sampleRef ACCEPT_NSID) sampleBid (t₁ ++ t₂) =
      (.ok sampleReceipt, t₁ ++ t₂ ++ t₃) := Prod.ext rfl ht₃
  have hafter : afterAccept (t₁ ++ t₂ ++ t₃) = some (sampleReceipt, []) := by
    rw [hsubmit] at hlogged
    rcases hlogged with h | ⟨-, hok, -⟩
    · cases h
    · refine (afterAccept_append_of_none (afterAccept_of_none ?_) t₃).trans (hok _ rfl)
      exact List.forall_mem_append.2 ⟨fun e he => (hquiet₁ e he).answer,
        fun e he => (hquiet₂ e he).answer⟩
  have hcheck : checkReceipt w (sampleRef ACCEPT_NSID) sampleReceipt (t₁ ++ t₂ ++ t₃) =
      (.ok true, t₁ ++ t₂ ++ t₃ ++ [.verified sampleReceipt.uri (.ok true)]) :=
    checkReceipt_of_verifies rfl rfl (sampleReceipt_verifies _)
  have hrun : runComputeContract w sampleOptions 1 [] =
      finish w sampleOptions 1 (sampleRef COMPUTE_VM_NSID) (sampleRef RFP_NSID)
          (sampleRef ACCEPT_NSID) sampleBid 1 sampleReceipt (t₁ ++ t₂ ++ t₃) := by
    refine (Task.bind_of_ok hoffer).trans ?_
    refine (Task.bind_of_ok (rfl : look w.pendingBids t₁ = (.ok [sampleBid], t₁))).trans ?_
    refine (Task.bind_of_ok (rfl : Task.ofExcept (pickWinner w sampleBid [sampleBid]) t₁ =
      (.ok sampleBid, t₁))).trans ?_
    refine (Task.bind_of_ok (rfl : look w.now t₁ = (.ok "2025-01-01T00:00:00.000Z", t₁))).trans ?_
    exact (Task.bind_of_ok hcreate).trans (Task.bind_of_ok hsubmit)
  refine ⟨"thrown", _, ?_, hrun.trans ((Task.bind_of_ok hcheck).trans (Task.bind_of_error
    (rfl : useVm w sampleOptions 1 true _ = (.error "thrown", _ ++ [.ssh (.ok 0)] ++ _))))⟩
  rw [List.append_assoc, List.append_assoc (t₁ ++ t₂ ++ t₃)]
  exact afterAccept_append_of_some hafter _

/-- So it is not deleted. -/
theorem leak_sample : ¬ ∀ (w : World) (opts : Options) (fuel : ℕ) (o : Outcome String Result)
    (log : Log), w.primitives.Lawful → opts.noDelete.getD false = false →
    runComputeContract w opts fuel [] = (o, log) → o ≠ .running → NoLeak w log := by
  intro hall
  obtain ⟨o, log, hafter, hrun⟩ := sampleRun_throws
  have hleak := hall _ _ _ _ _ samplePrimitives_lawful rfl hrun fun h => nomatch h
  obtain ⟨del, event, now, -, ⟨rkey, entry, cid, hattested, -⟩, -, -⟩ :=
    (noLeak_of_some hafter).1 hleak
  simp at hattested

end ComputeContract.Requester
