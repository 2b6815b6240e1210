import ComputeContract.Market.Requester

/-!
# The log of a run

When a log leaks the VM: the accept was answered with a receipt, and no event that deletes the
VM was created and submitted. What comes before the answer is quiet.

* `Sound.prepend`: a quiet start of a log does not matter;
* `submitAccept_logs`: when the accept is answered nothing is logged after the answer yet.
-/

namespace ComputeContract.Requester

open AssocList Attest Market

/-! ## What a log shows -/

def isError {α : Type} : Except String α → Bool
  | .ok _ => false
  | .error _ => true

namespace Effect

/-- The effect is an error. A receipt that cannot be checked is none: it is not verified. -/
def fails : Effect → Bool
  | .relayReady result | .sshKeygen result => isError result
  | .vouches result | .offerings _ result => isError result
  | .registries result => isError result
  | .attested _ result => isError result
  | .applied _ _ _ result => isError result
  | .read _ _ result => isError result
  | .resolved _ result => isError result
  | .serviceAuth _ _ result => isError result
  | .posted _ _ _ result => isError result
  | .verified _ _ => false
  | .ssh result => isError result
  | .callback _ result => isError result

/-- An event is written. -/
def isEvent : Effect → Bool
  | .applied collection _ _ _ => collection = EVENT_NSID
  | _ => false

/-- An event is submitted. -/
def isSubmit : Effect → Bool
  | .posted _ nsid _ _ => nsid = SUBMIT_EVENT_NSID
  | _ => false

/-- An event is taken by a bidder, or some endpoint is not found. -/
def delivers : Effect → Bool
  | .posted _ nsid _ (.ok _) => nsid = SUBMIT_EVENT_NSID
  | .resolved _ (.ok none) => true
  | _ => false

/-- The accept is answered with a receipt and where to submit events. -/
def answered : Effect → Option Receipt
  | .posted _ nsid _ (.ok ⟨_, _, some body⟩) =>
    if nsid = SUBMIT_ACCEPT_NSID then (receiptOf body).toOption.filter Receipt.complete else none
  | _ => none

end Effect

/-- The answer to the accept, and what is logged after it. -/
def afterAccept : Log → Option (Receipt × Log)
  | [] => none
  | e :: log =>
    match e.answered with
    | some receipt => some (receipt, log)
    | none => afterAccept log

/-- The record was signed and created, with this ref. -/
def Created (w : World) (log : Log) (collection : String) (record : RecordMap) (ref : Ref) : Prop :=
  ∃ rkey entry cid, Effect.attested record (.ok entry) ∈ log ∧
    .applied collection rkey (withSignature record entry) (.ok ()) ∈ log ∧
    .read collection rkey (.ok cid) ∈ log ∧ ref = ⟨recordUri w collection rkey, cid.getD ""⟩

/-- The event is submitted to where the receipt says, if that is found, and no other is. -/
def Submitted (receipt : Receipt) (log after : Log) (event : Ref) (record : RecordMap) : Prop :=
  (∃ target res, .resolved receipt.submitEvent (.ok (some target)) ∈ after ∧
    log.filter Effect.isSubmit =
      [.posted target SUBMIT_EVENT_NSID (submitEventBody event record) (.ok res)]) ∨
  (.resolved receipt.submitEvent (.ok none) ∈ after ∧ log.filter Effect.isSubmit = [])

/-- One event is created, a deletion that names the receipt, and submitted. -/
structure Deleted (w : World) (receipt : Receipt) (log after : Log) (del event : Ref)
    (now : String) : Prop where
  payload : Created w after COMPUTE_EVENTS_VM_DELETE_NSID (vmDeleteRecord now) del
  created : Created w after EVENT_NSID (eventRecord receipt del now) event
  once : log.countP Effect.isEvent = 1
  submitted : Submitted receipt log after event (eventRecord receipt del now)

/-- Once the accept is answered the VM is deleted; no other event is created or submitted. -/
def NoLeak (w : World) (log : Log) : Prop :=
  match afterAccept log with
  | some (receipt, after) => ∃ del event now, Deleted w receipt log after del event now
  | none => ∀ e ∈ log, e.isEvent = false ∧ e.isSubmit = false

/-- An effect of no concern: no event and no answer to the accept. -/
structure Quiet (e : Effect) : Prop where
  event : e.isEvent = false
  submit : e.isSubmit = false
  answer : e.answered = none

section
variable {w : World}

theorem afterAccept_of_none {log : Log} (h : ∀ e ∈ log, e.answered = none) :
    afterAccept log = none := by
  induction log with
  | nil => rfl
  | cons e log ih =>
    rw [afterAccept, h e List.mem_cons_self]
    exact ih fun e he => h e (List.mem_cons_of_mem _ he)

theorem afterAccept_append_of_none {log : Log} (h : afterAccept log = none) (log' : Log) :
    afterAccept (log ++ log') = afterAccept log' := by
  induction log with
  | nil => rfl
  | cons e log ih =>
    rw [afterAccept] at h
    rw [List.cons_append, afterAccept]
    cases he : e.answered with
    | none =>
      rw [he] at h
      exact ih h
    | some receipt =>
      rw [he] at h
      cases h

theorem afterAccept_append_of_some {log after : Log} {receipt : Receipt}
    (h : afterAccept log = some (receipt, after)) (log' : Log) :
    afterAccept (log ++ log') = some (receipt, after ++ log') := by
  induction log with
  | nil => cases h
  | cons e log ih =>
    rw [afterAccept] at h
    rw [List.cons_append, afterAccept]
    cases he : e.answered with
    | none =>
      rw [he] at h
      exact ih h
    | some receipt' =>
      rw [he] at h
      cases h
      rfl

theorem countP_of_quiet {log : Log} (h : ∀ e ∈ log, e.isEvent = false) :
    log.countP Effect.isEvent = 0 :=
  List.countP_eq_zero.2 fun e he => by rw [h e he]; exact Bool.false_ne_true

theorem filter_of_quiet {log : Log} (h : ∀ e ∈ log, e.isSubmit = false) :
    log.filter Effect.isSubmit = [] :=
  List.filter_eq_nil_iff.2 fun e he => by rw [h e he]; exact Bool.false_ne_true

/-- The property of a run that ends. -/
def Sound (w : World) {α : Type} (o : Outcome String α) (log : Log) : Prop :=
  o ≠ .running → (NoLeak w log ↔
    ∀ receipt after, afterAccept log = some (receipt, after) → ∀ e ∈ after, e.fails = false)

theorem noLeak_of_none {log : Log} (h : afterAccept log = none) :
    NoLeak w log ↔ ∀ e ∈ log, e.isEvent = false ∧ e.isSubmit = false := by
  rw [NoLeak, h]

theorem noLeak_of_some {log after : Log} {receipt : Receipt}
    (h : afterAccept log = some (receipt, after)) :
    NoLeak w log ↔ ∃ del event now, Deleted w receipt log after del event now := by
  rw [NoLeak, h]

theorem sound_of_quiet {α : Type} (o : Outcome String α) {log : Log} (h : ∀ e ∈ log, Quiet e) :
    Sound w o log := by
  intro _
  have hnone := afterAccept_of_none fun e he => (h e he).answer
  rw [noLeak_of_none hnone, hnone]
  exact iff_of_true (fun e he => ⟨(h e he).event, (h e he).submit⟩) fun _ _ hsome => nomatch hsome

/-- What is quiet at the start does not matter. -/
theorem Deleted.prepend_iff {receipt : Receipt} {log log' after : Log} {del event : Ref}
    {now : String} (h : ∀ e ∈ log, e.isEvent = false ∧ e.isSubmit = false) :
    Deleted w receipt (log ++ log') after del event now ↔
      Deleted w receipt log' after del event now := by
  have hcount : (log ++ log').countP Effect.isEvent = log'.countP Effect.isEvent := by
    rw [List.countP_append, countP_of_quiet fun e he => (h e he).1, Nat.zero_add]
  have hfilter : (log ++ log').filter Effect.isSubmit = log'.filter Effect.isSubmit := by
    rw [List.filter_append, filter_of_quiet fun e he => (h e he).2, List.nil_append]
  constructor
  · rintro ⟨hpayload, hcreated, honce, hsubmitted⟩
    rw [Submitted, hfilter] at hsubmitted
    exact ⟨hpayload, hcreated, hcount ▸ honce, hsubmitted⟩
  · rintro ⟨hpayload, hcreated, honce, hsubmitted⟩
    refine ⟨hpayload, hcreated, hcount.trans honce, ?_⟩
    rw [Submitted, hfilter]
    exact hsubmitted

theorem Sound.prepend {α : Type} {o : Outcome String α} {log log' : Log} (h : ∀ e ∈ log, Quiet e)
    (hsound : Sound w o log') : Sound w o (log ++ log') := by
  intro ho
  have hquiet := fun e he => And.intro (h e he).event (h e he).submit
  have hafter := afterAccept_append_of_none (afterAccept_of_none fun e he => (h e he).answer) log'
  rw [hafter, ← hsound ho]
  cases hlog' : afterAccept log' with
  | none =>
    rw [noLeak_of_none (hafter.trans hlog'), noLeak_of_none hlog', List.forall_mem_append]
    exact and_iff_right hquiet
  | some answer =>
    rw [noLeak_of_some (hafter.trans hlog'), noLeak_of_some hlog']
    exact exists_congr fun del => exists_congr fun event => exists_congr fun now =>
      Deleted.prepend_iff hquiet

theorem sound_bind {α β : Type} {x : Run α} {f : α → Run β} (hx : Task.AppendsAll Quiet x)
    (hf : ∀ a, Task.Logs (f a) (Sound w)) : Task.Logs (x >>= f) (Sound w) :=
  Task.Logs.bind hx hf (fun _ _ _ _ ht ht' => ht'.prepend ht) (fun _ _ ht => sound_of_quiet _ ht)
    fun _ ht => sound_of_quiet _ ht

end

/-! ## What the steps log -/

section
variable {w : World} {α : Type} {effect : Except String α → Effect}
  {answer : Log → Outcome String α} {p : Effect → Prop}

theorem act_logs : Task.Logs (act effect answer) fun o t =>
    (∃ a, o = .ok a ∧ t = [effect (.ok a)]) ∨ (∃ e, o = .error e ∧ t = [effect (.error e)]) ∨
      o = .running ∧ t = [] := by
  intro log
  unfold act
  cases answer log with
  | ok a => exact ⟨[effect (.ok a)], rfl, .inl ⟨a, rfl, rfl⟩⟩
  | error e => exact ⟨[effect (.error e)], rfl, .inr (.inl ⟨e, rfl, rfl⟩)⟩
  | running => exact ⟨[], (List.append_nil log).symm, .inr (.inr ⟨rfl, rfl⟩)⟩

theorem act_of_ok {log : Log} {a : α} (h : answer log = .ok a) :
    act effect answer log = (.ok a, log ++ [effect (.ok a)]) := by
  rw [act, h]

theorem act_appends (h : ∀ r, p (effect r)) : Task.AppendsAll p (act effect answer) := by
  refine act_logs.conseq ?_
  rintro o t (⟨a, -, rfl⟩ | ⟨e, -, rfl⟩ | ⟨-, rfl⟩)
  · exact List.forall_mem_singleton.2 (h _)
  · exact List.forall_mem_singleton.2 (h _)
  · exact List.forall_mem_nil _

theorem act_shows (hok : ∀ a, (effect (.ok a)).fails = false)
    (herror : ∀ e, (effect (.error e)).fails = true) :
    Task.Shows (fun e => e.fails = true) (act effect answer) := by
  refine act_logs.conseq ?_
  rintro o t (⟨a, rfl, rfl⟩ | ⟨e, rfl, rfl⟩ | ⟨rfl, rfl⟩)
  · refine ⟨fun _ _ => List.forall_mem_singleton.2 ?_, fun _ h => nomatch h⟩
    exact Bool.eq_false_iff.1 (hok a)
  · exact ⟨(fun _ h => nomatch h), fun _ _ => ⟨_, List.mem_singleton_self _, herror e⟩⟩
  · exact ⟨(fun _ h => nomatch h), fun _ h => nomatch h⟩

theorem act_gives : Task.Gives (fun a t => t = [effect (.ok a)]) (act effect answer) := by
  refine act_logs.conseq ?_
  rintro o t (⟨a, rfl, rfl⟩ | ⟨e, rfl, rfl⟩ | ⟨rfl, rfl⟩) b hb
  · cases hb
    rfl
  · cases hb
  · cases hb

theorem look_appends (f : Log → α) : Task.AppendsAll p (look f) := .of_same fun _ => rfl

theorem look_shows (f : Log → α) : Task.Shows (fun e => e.fails = true) (look f) :=
  Task.Logs.of_same (fun _ => rfl)
    fun _ => ⟨fun _ _ => List.forall_mem_nil _, fun _ h => nomatch h⟩

theorem look_gives (f : Log → α) : Task.Gives (fun _ t => t = []) (look f) :=
  Task.Logs.of_same (fun _ => rfl) fun _ _ _ => rfl

theorem writeRecord_appends {collection : String} (rkey : String) (record : RecordMap)
    (happlied : ∀ r, p (.applied collection rkey record r))
    (hread : ∀ r, p (.read collection rkey r)) :
    Task.AppendsAll p (writeRecord w collection rkey record) :=
  (act_appends happlied).bind fun _ => (act_appends hread).bind fun _ => .pure _

theorem createRepoRecord_appends {collection : String} (record : RecordMap)
    (happlied : ∀ rkey record r, p (.applied collection rkey record r))
    (hread : ∀ rkey r, p (.read collection rkey r)) :
    Task.AppendsAll p (createRepoRecord w collection record) :=
  (look_appends _).bind fun rkey => writeRecord_appends rkey _ (happlied rkey _) (hread rkey)

theorem createSignedRepoRecord_appends {collection : String} (record : RecordMap)
    (hattested : ∀ r, p (.attested record r))
    (happlied : ∀ rkey record r, p (.applied collection rkey record r))
    (hread : ∀ rkey r, p (.read collection rkey r)) :
    Task.AppendsAll p (createSignedRepoRecord w collection record) :=
  (look_appends _).bind fun rkey => (act_appends hattested).bind fun _ =>
    writeRecord_appends rkey _ (happlied rkey _) (hread rkey)

theorem createSignedRepoRecord_shows (collection : String) (record : RecordMap) :
    Task.Shows (fun e => e.fails = true) (createSignedRepoRecord w collection record) := by
  refine (look_shows _).bind fun rkey => .bind ?_ fun entry => .bind ?_ fun _ => .bind ?_ fun cid =>
    .pure _
  all_goals exact act_shows (fun _ => rfl) fun _ => rfl

/-- How a record that is signed and created is logged. -/
def createEffects (collection : String) (record : RecordMap) (rkey : String) (entry : RecordMap)
    (cid : Option String) : Log :=
  [.attested record (.ok entry), .applied collection rkey (withSignature record entry) (.ok ()),
    .read collection rkey (.ok cid)]

theorem createSignedRepoRecord_gives (collection : String) (record : RecordMap) :
    Task.Gives (fun ref t => ∃ rkey entry cid, ref = ⟨recordUri w collection rkey, cid.getD ""⟩ ∧
        t = createEffects collection record rkey entry cid)
      (createSignedRepoRecord w collection record) := by
  refine ((look_gives w.nextTid).bind fun rkey => act_gives.bind fun entry => act_gives.bind
    fun _ => act_gives.bind fun cid => .pure _).conseq ?_
  rintro ref t ⟨rkey, _, _, rfl, ⟨entry, _, _, rfl, ⟨_, _, _, rfl, ⟨cid, _, _, rfl, ⟨rfl, rfl⟩,
    rfl⟩, rfl⟩, rfl⟩, rfl⟩
  exact ⟨rkey, entry, cid, rfl, rfl⟩

theorem resolveBidderEndpoint_appends (endpointUrl : Option Value)
    (h : ∀ r, p (.resolved endpointUrl r)) :
    Task.AppendsAll p (resolveBidderEndpoint w endpointUrl) :=
  act_appends h

theorem callBidder_appends (target : Target) {nsid : String} (lxm : String) {body : RecordMap}
    (hauth : ∀ aud r, p (.serviceAuth aud lxm r)) (hposted : ∀ r, p (.posted target nsid body r)) :
    Task.AppendsAll p (callBidder w target nsid lxm body) :=
  (act_appends (hauth _)).bind fun _ => (act_appends hposted).bind fun _ => .ofExcept _

/-! ## Quiet steps -/

theorem quiet_applied {collection : String} (h : collection ≠ EVENT_NSID) (rkey : String)
    (record : RecordMap) (r : Except String Unit) : Quiet (.applied collection rkey record r) :=
  ⟨decide_eq_false h, rfl, rfl⟩

theorem quiet_posted {nsid : String} (haccept : nsid ≠ SUBMIT_ACCEPT_NSID)
    (hevent : nsid ≠ SUBMIT_EVENT_NSID) (target : Target) (body : RecordMap)
    (r : Except String Response) : Quiet (.posted target nsid body r) := by
  refine ⟨rfl, decide_eq_false hevent, ?_⟩
  rcases r with _ | ⟨_, _, _ | _⟩
  · rfl
  · rfl
  · exact if_neg haccept

theorem createSigned_quiet {collection : String} (h : collection ≠ EVENT_NSID)
    (record : RecordMap) : Task.AppendsAll Quiet (createSignedRepoRecord w collection record) :=
  createSignedRepoRecord_appends record (fun _ => ⟨rfl, rfl, rfl⟩) (quiet_applied h)
    fun _ _ => ⟨rfl, rfl, rfl⟩

theorem resolve_quiet (endpointUrl : Option Value) :
    Task.AppendsAll Quiet (resolveBidderEndpoint w endpointUrl) :=
  resolveBidderEndpoint_appends _ fun _ => ⟨rfl, rfl, rfl⟩

theorem submitRfp_quiet (rfp : Ref) (offering : ListedRecord) :
    Task.AppendsAll Quiet (submitRfp w rfp offering) := by
  unfold submitRfp
  dsimp only
  split
  · refine (resolve_quiet _).bind fun target => ?_
    cases target with
    | none => exact .pure ()
    | some target =>
      exact (callBidder_appends target _ (fun _ _ => ⟨rfl, rfl, rfl⟩)
        (quiet_posted (by decide) (by decide) _ _)).bind fun _ => .pure ()
  · exact .pure ()

theorem submitRfpTo_quiet (rfp : Ref) (bidderDid : String) :
    Task.AppendsAll Quiet (submitRfpTo w rfp bidderDid) :=
  ((act_appends fun _ => ⟨rfl, rfl, rfl⟩).bind fun offerings =>
    .forM (submitRfp_quiet rfp) offerings).tryCatch fun _ => .pure ()

theorem discoverBidders_quiet (opts : Options) :
    Task.AppendsAll Quiet (discoverBidders w opts) :=
  (Task.AppendsAll.tryCatch ((act_appends fun _ => ⟨rfl, rfl, rfl⟩).bind fun _ => .pure _)
    fun _ => .pure _).bind fun _ =>
  (Task.AppendsAll.tryCatch (act_appends fun _ => ⟨rfl, rfl, rfl⟩) fun _ => .pure _).bind
    fun _ => .pure _

theorem cloudInit_quiet (opts : Options) (vmName subdomain : String) :
    Task.AppendsAll Quiet (cloudInit w opts vmName subdomain) := by
  unfold cloudInit
  split
  · exact .pure _
  · exact (act_appends fun _ => ⟨rfl, rfl, rfl⟩).bind fun _ => .pure _

theorem offer_quiet (opts : Options) : Task.AppendsAll Quiet (offer w opts) :=
  (act_appends fun _ => ⟨rfl, rfl, rfl⟩).bind fun subdomain =>
  (cloudInit_quiet opts _ subdomain).bind fun _ =>
  (look_appends w.now).bind fun _ =>
  (createRepoRecord_appends _ (quiet_applied (by decide)) fun _ _ => ⟨rfl, rfl, rfl⟩).bind fun _ =>
  (look_appends w.now).bind fun _ =>
  (createSigned_quiet (by decide) _).bind fun rfp =>
  (discoverBidders_quiet opts).bind fun dids =>
  (Task.AppendsAll.forM (submitRfpTo_quiet rfp) dids).bind fun _ => .pure _

theorem checkReceipt_of_verifies {accept : Ref} {receipt : Receipt} {servers : Market.World}
    {ok : Bool} {log : Log} (hservers : w.servers log = .ok servers)
    (hreceipt : (truthy receipt.uri && truthy receipt.cid) = true)
    (h : receiptVerifies w accept receipt servers = .ok ok) :
    checkReceipt w accept receipt log = (.ok ok, log ++ [.verified receipt.uri (.ok ok)]) := by
  rw [checkReceipt, if_pos hreceipt]
  refine Task.tryCatch_of_ok (act_of_ok ?_)
  rw [hservers]
  exact Outcome.andThen_of_ok h

/-- Checking the receipt never fails. -/
theorem checkReceipt_shows (accept : Ref) (receipt : Receipt) :
    Task.Shows (fun e => e.fails = true) (checkReceipt w accept receipt) := by
  unfold checkReceipt
  split
  · have hact : Task.AppendsAll (fun e => e.fails = false) (act (.verified receipt.uri)
        fun log => (w.servers log).andThen (receiptVerifies w accept receipt)) :=
      act_appends fun _ => rfl
    refine Task.Logs.tryCatch (S := fun _ o t => o = .ok false ∧ t = []) hact
      (fun _ => .pure ⟨rfl, rfl⟩) ?_ ?_ ?_
    · exact fun _ t ht => ⟨fun _ _ e he => Bool.eq_false_iff.1 (ht e he), fun _ h => nomatch h⟩
    · rintro _ t o _ ht ⟨rfl, rfl⟩
      rw [List.append_nil]
      exact ⟨fun _ _ e he => Bool.eq_false_iff.1 (ht e he), fun _ h => nomatch h⟩
    · exact fun t _ => ⟨(fun _ h => nomatch h), fun _ h => nomatch h⟩
  · exact .pure false

/-! ## The accept -/

/-- What a reply is read as. -/
def Response.read (res : Response) : Outcome String Value :=
  .ofExcept (match res.json with
    | some resBody => .ok resBody
    | none => .error "TypeError")

/-- How a call of a bidder is logged. -/
theorem callBidder_logs (target : Target) (nsid lxm : String) (body : RecordMap) :
    Task.Logs (callBidder w target nsid lxm body) fun o t =>
      (∃ e, o = .error e ∧ t = [.serviceAuth target.audDid lxm (.error e)]) ∨
      (∃ e, o = .error e ∧
        t = [.serviceAuth target.audDid lxm (.ok ()), .posted target nsid body (.error e)]) ∨
      (∃ res, o = res.read ∧
        t = [.serviceAuth target.audDid lxm (.ok ()), .posted target nsid body (.ok res)]) ∨
      o = .running := by
  have hpost : Task.Logs (do
      let res ← act (.posted target nsid body) w.fetch
      Task.ofExcept (match res.json with
        | some resBody => .ok resBody
        | none => .error "TypeError") : Run Value) fun o t =>
      (∃ e, o = .error e ∧ t = [.posted target nsid body (.error e)]) ∨
      (∃ res, o = res.read ∧ t = [.posted target nsid body (.ok res)]) ∨ o = .running := by
    refine Task.Logs.bind act_logs (fun _ => .ofExcept _) ?_ ?_ fun _ _ => .inr (.inr rfl)
    · rintro res _ o _ (⟨_, h, rfl⟩ | ⟨_, h, -⟩ | ⟨h, -⟩) ⟨rfl, rfl⟩
      · cases h
        exact .inr (.inl ⟨res, rfl, rfl⟩)
      all_goals cases h
    · rintro e _ (⟨_, h, -⟩ | ⟨_, h, rfl⟩ | ⟨h, -⟩)
      · cases h
      · cases h
        exact .inl ⟨e, rfl, rfl⟩
      · cases h
  refine Task.Logs.bind act_logs (fun _ => hpost) ?_ ?_ ?_
  · rintro _ _ o t' (⟨_, -, rfl⟩ | ⟨_, h, -⟩ | ⟨h, -⟩) (⟨e, rfl, rfl⟩ | ⟨res, rfl, rfl⟩ | rfl)
    · exact .inr (.inl ⟨e, rfl, rfl⟩)
    · exact .inr (.inr (.inl ⟨res, rfl, rfl⟩))
    · exact .inr (.inr (.inr rfl))
    all_goals cases h
  · rintro e _ (⟨_, h, -⟩ | ⟨_, h, rfl⟩ | ⟨h, -⟩)
    · cases h
    · cases h
      exact .inl ⟨e, rfl, rfl⟩
    · cases h
  · exact fun _ _ => .inr (.inr (.inr rfl))

/-- When the accept is answered nothing is logged after the answer yet. -/
def AcceptLogged (o : Outcome String Receipt) (log : Log) : Prop :=
  o = .running ∨ (∀ e ∈ log, e.isEvent = false ∧ e.isSubmit = false) ∧
    (∀ receipt, o = .ok receipt →
      afterAccept log = if receipt.complete then some (receipt, []) else none) ∧
    ∀ e, o = .error e → afterAccept log = none

theorem acceptLogged_of_quiet {o : Outcome String Receipt} {log : Log}
    (ho : ∀ receipt, o = .ok receipt → receipt = .missing) (h : ∀ e ∈ log, Quiet e) :
    AcceptLogged o log := by
  have hnone := afterAccept_of_none fun e he => (h e he).answer
  refine .inr ⟨fun e he => ⟨(h e he).event, (h e he).submit⟩, fun receipt hr => ?_,
    fun _ _ => hnone⟩
  rw [hnone, ho receipt hr]
  rfl

theorem AcceptLogged.prepend {o : Outcome String Receipt} {log log' : Log}
    (h : ∀ e ∈ log, Quiet e) (hlogged : AcceptLogged o log') : AcceptLogged o (log ++ log') := by
  obtain rfl | ⟨hquiet, hok, herror⟩ := hlogged
  · exact .inl rfl
  have hafter := afterAccept_append_of_none (afterAccept_of_none fun e he => (h e he).answer) log'
  exact .inr ⟨List.forall_mem_append.2 ⟨fun e he => ⟨(h e he).event, (h e he).submit⟩, hquiet⟩,
    fun receipt hr => hafter.trans (hok receipt hr), fun e he => hafter.trans (herror e he)⟩

/-- The answer to the accept, as it is logged and returned. -/
theorem acceptLogged_answer (target : Target) (body : RecordMap) (res : Response) (resBody : Value)
    (hjson : res.json = some resBody) (auth : Effect) (hauth : Quiet auth) :
    AcceptLogged (.ofExcept (receiptOf resBody)) [auth, .posted target SUBMIT_ACCEPT_NSID body (.ok res)] := by
  obtain ⟨status, ok, json⟩ := res
  obtain rfl : json = some resBody := hjson
  have hanswered : (Effect.posted target SUBMIT_ACCEPT_NSID body
      (.ok ⟨status, ok, some resBody⟩)).answered =
        (receiptOf resBody).toOption.filter Receipt.complete := by
    rw [Effect.answered]
    exact if_pos rfl
  refine .inr ⟨?_, fun receipt hr => ?_, fun e he => ?_⟩
  · intro e he
    rcases List.mem_cons.1 he with rfl | he
    · exact ⟨hauth.event, hauth.submit⟩
    · obtain rfl := List.mem_singleton.1 he
      exact ⟨rfl, decide_eq_false (by decide : SUBMIT_ACCEPT_NSID ≠ SUBMIT_EVENT_NSID)⟩
  all_goals
    rw [afterAccept, hauth.answer]
    dsimp only
    rw [afterAccept, hanswered]
  · cases hreceipt : receiptOf resBody with
    | ok receipt' =>
      rw [hreceipt] at hr
      obtain rfl := Outcome.ok.inj hr
      by_cases hcomplete : receipt'.complete
      · simp only [Except.toOption, Option.filter, hcomplete, if_true]
      · simp only [Except.toOption, Option.filter, hcomplete]
        rfl
    | error e =>
      rw [hreceipt] at hr
      cases hr
  · cases hreceipt : receiptOf resBody with
    | ok receipt' =>
      rw [hreceipt] at he
      cases he
    | error e => rfl

theorem submitAccept_logs (accept : Ref) (winner : CollectedBid) :
    Task.Logs (submitAccept w accept winner) AcceptLogged := by
  have hmissing : Task.Logs (Pure.pure .missing : Run Receipt) AcceptLogged :=
    .pure (acceptLogged_of_quiet (fun _ h => (Outcome.ok.inj h).symm) (List.forall_mem_nil _))
  unfold submitAccept
  dsimp only
  split
  · refine Task.Logs.bind (resolve_quiet _) (S := fun _ => AcceptLogged) (fun target => ?_)
      (fun _ t _ _ ht ht' => ht'.prepend ht)
      (fun _ t ht => acceptLogged_of_quiet (fun _ h => nomatch h) ht)
      fun t ht => acceptLogged_of_quiet (fun _ h => nomatch h) ht
    cases target with
    | none => exact hmissing
    | some target =>
      have hauth : ∀ r, Quiet (.serviceAuth target.audDid SUBMIT_ACCEPT_NSID r) :=
        fun _ => ⟨rfl, rfl, rfl⟩
      have hsubmit : decide (SUBMIT_ACCEPT_NSID = SUBMIT_EVENT_NSID) = false := by decide
      refine Task.Logs.bind (callBidder_logs target _ _ _)
        (fun body => .ofExcept (receiptOf body)) ?_ ?_ ?_
      · rintro body _ o _ (⟨e, h, -⟩ | ⟨e, h, -⟩ | ⟨res, h, rfl⟩ | h) ⟨rfl, rfl⟩
        · cases h
        · cases h
        · cases hjson : res.json with
          | none =>
            rw [Response.read, hjson] at h
            cases h
          | some resBody =>
            rw [Response.read, hjson] at h
            obtain rfl := Outcome.ok.inj h
            exact acceptLogged_answer target _ res body hjson _ (hauth _)
        · cases h
      · -- Nothing came back, or what is no JSON.
        rintro e _ (⟨_, -, rfl⟩ | ⟨_, -, rfl⟩ | ⟨⟨status, ok, json⟩, h, rfl⟩ | h)
        · exact acceptLogged_of_quiet (fun _ h => nomatch h)
            (List.forall_mem_singleton.2 (hauth _))
        · exact acceptLogged_of_quiet (fun _ h => nomatch h)
            (List.forall_mem_cons.2 ⟨hauth _, List.forall_mem_singleton.2 ⟨rfl, hsubmit, rfl⟩⟩)
        · cases json with
          | none =>
            exact acceptLogged_of_quiet (fun _ h => nomatch h)
              (List.forall_mem_cons.2 ⟨hauth _, List.forall_mem_singleton.2 ⟨rfl, hsubmit, rfl⟩⟩)
          | some resBody => cases h
        · cases h
      · exact fun _ _ => .inl rfl
  · exact hmissing

end

end ComputeContract.Requester
