import ComputeContract.Lib.Along
import ComputeContract.Market.Auction

/-!
# Bid windows

Bids come in on two channels while the windows of several RFPs are open: `submitBid` puts them
into the queue of the RFP that they name, and each open window listens to the firehose. A window
takes the bids of its queue when it opens and when it closes, and those of the firehose as they
come.

* `step`: what is submitted, what opens, what is seen and what closes, in any order;
* `Gathers`: what a window has of all that was offered for its RFP, with what waits in the queue;
* `collects_of_heard`: a window returns each eligible bid once and leaves nothing waiting, unless
  the firehose could not be opened and a bid was submitted after that.
-/

namespace ComputeContract.Auction.BidWindow

open AssocList Attest Market

/-! ## Windows -/

/-- A call of `collectBidsForRfp`, from its start to the end of the window. -/
structure Window where
  allowedDids : List String
  /-- The socket of the firehose could be opened. -/
  connected : Bool
  collector : Collector
  result : Option (List CollectedBid)
  closed : Bool

/-- The queues, the windows, and all bids that were offered: submitted or seen. -/
structure State where
  pending : PendingBids
  windows : List (String × Window)
  offered : PendingBids

def State.offeredTo (s : State) (rfpUri : String) : List CollectedBid := pendingFor rfpUri s.offered

/-- A bid comes to the end of a queue. -/
def push (rfpUri : String) (b : CollectedBid) (pending : PendingBids) : PendingBids :=
  set rfpUri (pendingFor rfpUri pending ++ [b]) pending

section
variable (w : World)

/-- What a request adds to the queues: a bid, for the RFP that its record names. -/
def submitted (req : SubmitBidRequest) (pending : PendingBids) : Option (String × CollectedBid) :=
  match submitBid w req pending with
  | .error _ => none
  | .ok _ =>
    match prop req.body "uri", prop req.body "cid", prop req.body "record" with
    | some (.text uri), some cid, some (.object record) =>
      match prop (prop (some (.object record)) "rfp") "uri" with
      | some (.text rfpUri) => some (rfpUri, ⟨atUriAuthority uri, uri, cid, record, none, none⟩)
      | _ => none
    | _, _, _ => none

/-- The bid for an RFP that a message of the firehose is, if it is one. -/
def seenBid (rfpUri : String) (msg : Value) : Option CollectedBid :=
  let commit := prop (some msg) "commit"
  let record := prop commit "record"
  if isText BID_NSID (prop commit "collection") && isText "create" (prop commit "operation") &&
      rfpUri ≠ "" && isText rfpUri (prop (prop record "rfp") "uri") then
    match prop (some msg) "did", w.text (prop commit "rkey"), record with
    | some (.text did), .ok rkey, some (.object record) =>
      some ⟨did, s!"at://{did}/{BID_NSID}/{rkey}", orEmpty (prop commit "cid"), record, none, none⟩
    | _, _, _ => none
  else none

/-- What a window holds after a message. -/
def afterMessage (rfpUri : String) (allowedDids : List String) (msg : Value) (c : Collector) :
    Collector :=
  match onMessage w rfpUri allowedDids msg c with
  | .ok c => c
  | .error _ => c

/-- A window opens: it takes what waits, and returns it at once without the firehose. -/
def start (rfpUri : String) (allowedDids : List String) (connected : Bool) (s : State) : State :=
  let pre := (pendingFor rfpUri s.pending).foldl (addDirect allowedDids) ⟨[], []⟩
  { s with
    pending := erase rfpUri s.pending
    windows := set rfpUri ⟨allowedDids, connected, pre,
      if connected then none else some pre.bids, false⟩ s.windows }

/-- The time of a window is over; what waits is taken only with the firehose. -/
def close (rfpUri : String) (win : Window) (s : State) : State :=
  if win.connected then
    let last := (pendingFor rfpUri s.pending).foldl (addDirect win.allowedDids) win.collector
    { s with
      pending := erase rfpUri s.pending
      windows := set rfpUri { win with collector := last, result := some last.bids, closed := true }
        s.windows }
  else { s with windows := set rfpUri { win with closed := true } s.windows }

/-- What happens next. The message is one that a window's socket receives. -/
inductive Event
  | submitBid (req : SubmitBidRequest)
  | start (rfpUri : String) (allowedDids : List String) (connected : Bool)
  | message (rfpUri : String) (msg : Value)
  | close (rfpUri : String)

/-- A step; an RFP has one window, since its URI is new when it is created. -/
def step (s : State) : Event → State
  | .submitBid req =>
    { s with
      pending := afterSubmit w s.pending req
      offered :=
        match submitted w req s.pending with
        | some (rfpUri, b) => push rfpUri b s.offered
        | none => s.offered }
  | .start rfpUri allowedDids connected =>
    match s.windows.lookup rfpUri with
    | none => start rfpUri allowedDids connected s
    | some _ => s
  | .message rfpUri msg =>
    match s.windows.lookup rfpUri with
    | none => s
    | some win =>
      if win.connected ∧ ¬ win.closed then
        { s with
          windows := set rfpUri { win with
            collector := afterMessage w rfpUri win.allowedDids msg win.collector } s.windows
          offered :=
            match seenBid w rfpUri msg with
            | some b => push rfpUri b s.offered
            | none => s.offered }
      else s
  | .close rfpUri =>
    match s.windows.lookup rfpUri with
    | none => s
    | some win => if win.closed then s else close rfpUri win s

def initial : State := ⟨[], [], []⟩

/-! ## What a window returns -/

/-- Of all bids that were offered for an RFP: each URI of an allowed bidder once, no other. -/
structure Complete (allowedDids : List String) (all bids : List CollectedBid) : Prop where
  nodup : (bids.map CollectedBid.uri).Nodup
  eligible : ∀ b ∈ bids, b ∈ all ∧ b.did ∈ allowedDids
  complete : ∀ b ∈ all, b.did ∈ allowedDids → b.uri ∈ bids.map CollectedBid.uri

/-- The RFP whose window takes a step. -/
def Event.collects : Event → Option String
  | .submitBid _ => none
  | .start rfpUri _ _ | .message rfpUri _ | .close rfpUri => some rfpUri

/-- What should hold of a step: a window that closes has returned what is eligible of all that
    was offered, with nothing left to wait, and it takes nothing of the other queues. -/
structure Collects (s : State) (e : Event) : Prop where
  returns : ∀ rfpUri win, e = .close rfpUri → s.windows.lookup rfpUri = some win → ¬ win.closed →
    ∃ bids, ((step w s e).windows.lookup rfpUri).bind Window.result = some bids ∧
      Complete win.allowedDids (s.offeredTo rfpUri) bids ∧
      pendingFor rfpUri (step w s e).pending = []
  others : ∀ rfpUri ∈ e.collects, ∀ other ≠ rfpUri,
    pendingFor other (step w s e).pending = pendingFor other s.pending

/-- The DID of a message is a text, not empty and without a slash. -/
def isDid : Option Value → Bool
  | some (.text did) => did ≠ "" && '/' ∉ did.toList
  | _ => false

/-- The messages are those that a firehose sends. -/
def FromFirehose : Event → Prop
  | .message _ msg => isDid (prop (some msg) "did")
  | _ => True

/-- No bid is submitted for an RFP whose window is open without the firehose. -/
def Heard (s : State) : Event → Prop
  | .submitBid req => ∀ e ∈ submitted w req s.pending, ∀ win ∈ s.windows.lookup e.1,
      win.closed ∨ win.connected
  | _ => True

instance : ∀ e, Decidable (FromFirehose e)
  | .message _ msg => inferInstanceAs (Decidable (isDid (prop (some msg) "did") = true))
  | .submitBid _ | .start .. | .close _ => inferInstanceAs (Decidable True)

instance (s : State) : ∀ e, Decidable (Heard w s e)
  | .submitBid req => inferInstanceAs (Decidable (∀ e ∈ submitted w req s.pending,
      ∀ win ∈ s.windows.lookup e.1, win.closed ∨ win.connected))
  | .message .. | .start .. | .close _ => inferInstanceAs (Decidable True)

end

/-! ## The queues -/

section
variable {w : World} {rfpUri : String} {allowedDids : List String} {pending : PendingBids}
  {b : CollectedBid}

theorem pendingFor_push (rfpUri : String) (b : CollectedBid) (pending : PendingBids)
    (other : String) : pendingFor other (push rfpUri b pending) =
      if other = rfpUri then pendingFor rfpUri pending ++ [b] else pendingFor other pending := by
  rw [pendingFor, push, lookup_set]
  split_ifs <;> rfl

theorem pendingFor_erase (rfpUri : String) (pending : PendingBids) (other : String) :
    pendingFor other (erase rfpUri pending) =
      if other = rfpUri then [] else pendingFor other pending := by
  rw [pendingFor, lookup_erase]
  split_ifs <;> rfl

/-- What is submitted comes to the queue of its RFP, and says whose repository it is in. -/
theorem afterSubmit_eq (req : SubmitBidRequest) (pending : PendingBids) :
    (submitted w req pending = none ∧ afterSubmit w pending req = pending) ∨
      ∃ rfpUri b, submitted w req pending = some (rfpUri, b) ∧
        afterSubmit w pending req = push rfpUri b pending ∧ b.did = atUriAuthority b.uri := by
  unfold submitted afterSubmit
  cases h : submitBid w req pending with
  | error _ => exact .inl ⟨rfl, rfl⟩
  | ok pending' =>
    obtain ⟨uri, cid, record, huri, hcid, hrecord, -, -, hbid⟩ := submitBid_eq_ok h
    obtain ⟨v, hv, hbid⟩ := bind_eq_ok.1 hbid
    obtain ⟨o, ho, hv⟩ := bind_eq_ok.1 (mapError_eq_ok.1 hv)
    have hrfp : prop (prop (some (.object record)) "rfp") "uri" = v := by
      rw [prop_of_get ho, prop_of_get hv]
    dsimp only
    rw [huri, hcid, hrecord]
    dsimp only
    rw [hrfp]
    cases v with
    | none => exact .inl ⟨rfl, (Except.ok.inj hbid).symm⟩
    | some v =>
      cases v with
      | text rfpUri => exact .inr ⟨_, _, rfl, (Except.ok.inj hbid).symm, rfl⟩
      | _ => exact .inl ⟨rfl, (Except.ok.inj hbid).symm⟩

/-! ## Messages -/

theorem removeFirst_append (text rest : List Char) (h : text ≠ []) :
    removeFirst text (text ++ rest) = rest := by
  obtain ⟨c, cs, rfl⟩ := List.exists_cons_of_ne_nil h
  have hhead : (c :: cs).isPrefixOf (c :: (cs ++ rest)) :=
    List.isPrefixOf_iff_prefix.2 (List.prefix_append (c :: cs) rest)
  rw [List.cons_append, removeFirst, if_pos hhead, ← List.cons_append, List.drop_left]

/-- The authority of the URI of a record is the DID of its repository. -/
theorem atUriAuthority_eq {did : String} (h : '/' ∉ did.toList) (collection rkey : String) :
    atUriAuthority s!"at://{did}/{collection}/{rkey}" = did := by
  have htoList : (s!"at://{did}/{collection}/{rkey}").toList =
      "at://".toList ++ (did.toList ++ '/' :: (collection.toList ++ '/' :: rkey.toList)) := by
    simp only [String.toList_append, List.append_assoc]
    rfl
  have hdid : ∀ c ∈ did.toList, decide (c ≠ '/') := fun c hc =>
    decide_eq_true fun heq : c = '/' => h (heq ▸ hc)
  rw [atUriAuthority, htoList, removeFirst_append _ _ (by decide),
    List.takeWhile_append_of_pos hdid, List.takeWhile_cons_of_neg (by decide), List.append_nil,
    String.ofList_toList]

/-- What a window makes of a bid of the firehose. -/
def see (allowedDids : List String) (c : Collector) (b : CollectedBid) : Collector :=
  if b.uri ∈ c.seen then c
  else if b.did ∈ allowedDids then ⟨c.bids ++ [b], c.seen ++ [b.uri]⟩
  else ⟨c.bids, c.seen ++ [b.uri]⟩

theorem exists_of_isDid {o : Option Value} (h : isDid o) :
    ∃ did, o = some (.text did) ∧ did ≠ "" ∧ '/' ∉ did.toList := by
  unfold isDid at h
  split at h
  · rw [Bool.and_eq_true, decide_eq_true_eq, decide_eq_true_eq] at h
    exact ⟨_, rfl, h⟩
  · cases h

/-- A message is no bid, or the window sees it. -/
theorem afterMessage_eq {msg : Value} (hdid : isDid (prop (some msg) "did")) (c : Collector) :
    (seenBid w rfpUri msg = none ∧ afterMessage w rfpUri allowedDids msg c = c) ∨
      ∃ b, seenBid w rfpUri msg = some b ∧
        afterMessage w rfpUri allowedDids msg c = see allowedDids c b ∧
        b.did = atUriAuthority b.uri := by
  obtain ⟨did, hdid, hne, hslash⟩ := exists_of_isDid hdid
  have hget : ∀ name, Market.get (some msg) name = .ok (prop (some msg) name) := by
    intro name
    cases msg with
    | object fields => rfl
    | _ => cases hdid
  unfold seenBid afterMessage onMessage
  have htext : w.text (some (.text did)) = .ok did := rfl
  rw [hget, hget, hdid]
  dsimp only [bind, Except.bind, pure, Except.pure]
  rw [htext]
  by_cases hbid : isText BID_NSID (prop (prop (some msg) "commit") "collection") &&
      isText "create" (prop (prop (some msg) "commit") "operation") && decide (rfpUri ≠ "") &&
      isText rfpUri (prop (prop (prop (prop (some msg) "commit") "record") "rfp") "uri")
  · rw [if_pos hbid, if_pos hbid]
    have hrfp := eq_of_isText (Bool.and_eq_true_iff.1 hbid).2
    obtain ⟨record, hrecord⟩ : ∃ record,
        prop (prop (some msg) "commit") "record" = some (.object record) := by
      cases hrecord : prop (prop (some msg) "commit") "record" with
      | none => rw [hrecord] at hrfp; cases hrfp
      | some v =>
        cases v with
        | object record => exact ⟨record, rfl⟩
        | _ => rw [hrecord] at hrfp; cases hrfp
    rw [hrecord]
    cases hrkey : w.text (prop (prop (some msg) "commit") "rkey") with
    | error _ => exact .inl ⟨rfl, rfl⟩
    | ok rkey =>
      refine .inr ⟨_, rfl, ?_, (atUriAuthority_eq hslash BID_NSID rkey).symm⟩
      dsimp only [see]
      by_cases hseen : s!"at://{did}/{BID_NSID}/{rkey}" ∈ c.seen
      · rw [if_pos hseen, if_pos hseen]
      · rw [if_neg hseen, if_neg hseen]
        dsimp only [receiveBid]
        by_cases hallowed : did ∈ allowedDids
        · rw [if_pos ⟨hne, hallowed⟩, if_pos hallowed]
        · rw [if_neg fun h => hallowed h.2, if_neg hallowed]
  · rw [if_neg hbid, if_neg hbid]
    exact .inl ⟨rfl, rfl⟩

/-! ## What a window has -/

/-- Of all bids that were offered, a window has those of its bidders that it has seen, and the
    ones that it has not seen wait. -/
structure Gathers (allowedDids : List String) (all waiting : List CollectedBid) (c : Collector) :
    Prop where
  nodup : (c.bids.map CollectedBid.uri).Nodup
  eligible : ∀ b ∈ c.bids, b ∈ all ∧ b.did ∈ allowedDids
  seen : ∀ b ∈ c.bids, b.uri ∈ c.seen
  kept : ∀ uri ∈ c.seen, uri ∈ c.bids.map CollectedBid.uri ∨ atUriAuthority uri ∉ allowedDids
  offered : ∀ b ∈ waiting, b ∈ all
  known : ∀ b ∈ all, b ∈ waiting ∨ b.uri ∈ c.seen ∨ b.did ∉ allowedDids
  authority : ∀ b ∈ all, b.did = atUriAuthority b.uri

variable {all waiting : List CollectedBid} {c : Collector}

/-- A window that is about to open. -/
theorem Gathers.start (hoffered : ∀ b ∈ waiting, b ∈ all) (hknown : ∀ b ∈ all, b ∈ waiting)
    (hauthority : ∀ b ∈ all, b.did = atUriAuthority b.uri) :
    Gathers allowedDids all waiting ⟨[], []⟩ :=
  ⟨List.nodup_nil, fun _ h => absurd h List.not_mem_nil, fun _ h => absurd h List.not_mem_nil,
    fun _ h => absurd h List.not_mem_nil, hoffered, fun b hb => .inl (hknown b hb), hauthority⟩

/-- A bid that is offered, and waits. -/
theorem Gathers.offer (h : Gathers allowedDids all waiting c) (hb : b.did = atUriAuthority b.uri)
    {waiting' : List CollectedBid} (hwaiting : ∀ b', b' ∈ waiting' ↔ b' ∈ waiting ∨ b' = b) :
    Gathers allowedDids (all ++ [b]) waiting' c where
  nodup := h.nodup
  eligible b' hb' := (h.eligible b' hb').imp_left (List.mem_append_left [b])
  seen := h.seen
  kept := h.kept
  offered b' hb' := by
    rw [List.mem_append, List.mem_singleton]
    exact ((hwaiting b').1 hb').imp_left (h.offered b')
  known b' hb' := by
    rw [List.mem_append, List.mem_singleton] at hb'
    rcases hb' with hb' | hb'
    · exact (h.known b' hb').imp_left fun hb' => (hwaiting b').2 (.inl hb')
    · exact .inl ((hwaiting b').2 (.inr hb'))
  authority := List.forall_mem_append.2 ⟨h.authority, List.forall_mem_singleton.2 hb⟩

/-- A bid that is collected. -/
theorem Gathers.collect (h : Gathers allowedDids all waiting c) (hb : b ∈ all)
    (hdid : b.did ∈ allowedDids) (hnew : b.uri ∉ c.seen) :
    Gathers allowedDids all waiting ⟨c.bids ++ [b], c.seen ++ [b.uri]⟩ where
  nodup := by
    rw [List.map_append]
    refine List.nodup_append.2 ⟨h.nodup, List.nodup_singleton _, fun uri huri uri' huri' heq => ?_⟩
    obtain ⟨b', hb', rfl⟩ := List.mem_map.1 huri
    obtain rfl := List.mem_singleton.1 huri'
    exact hnew (heq ▸ h.seen b' hb')
  eligible := List.forall_mem_append.2 ⟨h.eligible, List.forall_mem_singleton.2 ⟨hb, hdid⟩⟩
  seen := List.forall_mem_append.2 ⟨fun b' hb' => List.mem_append_left _ (h.seen b' hb'),
    List.forall_mem_singleton.2 (List.mem_append_right _ (List.mem_singleton_self _))⟩
  kept := by
    rw [List.map_append]
    refine List.forall_mem_append.2 ⟨fun uri huri => (h.kept uri huri).imp_left
      (List.mem_append_left _), List.forall_mem_singleton.2 (.inl ?_)⟩
    exact List.mem_append_right _ (List.mem_singleton_self _)
  offered := h.offered
  known b' hb' := (h.known b' hb').imp_right (Or.imp_left (List.mem_append_left _))
  authority := h.authority

/-- A bid that is seen, of a bidder that is not allowed. -/
theorem Gathers.reject (h : Gathers allowedDids all waiting c) (hb : b ∈ all)
    (hdid : b.did ∉ allowedDids) :
    Gathers allowedDids all waiting ⟨c.bids, c.seen ++ [b.uri]⟩ where
  nodup := h.nodup
  eligible := h.eligible
  seen b' hb' := List.mem_append_left _ (h.seen b' hb')
  kept := List.forall_mem_append.2 ⟨h.kept, List.forall_mem_singleton.2
    (.inr (h.authority b hb ▸ hdid))⟩
  offered := h.offered
  known b' hb' := (h.known b' hb').imp_right (Or.imp_left (List.mem_append_left _))
  authority := h.authority

/-- A bid of the queue that need not wait: it was seen, or its bidder is not allowed. -/
theorem Gathers.pop (h : Gathers allowedDids all (b :: waiting) c)
    (hb : b.uri ∈ c.seen ∨ b.did ∉ allowedDids) : Gathers allowedDids all waiting c where
  nodup := h.nodup
  eligible := h.eligible
  seen := h.seen
  kept := h.kept
  offered b' hb' := h.offered b' (List.mem_cons_of_mem b hb')
  known b' hb' := by
    rcases h.known b' hb' with hb' | hb'
    · rcases List.mem_cons.1 hb' with rfl | hb'
      · exact .inr hb
      · exact .inl hb'
    · exact .inr hb'
  authority := h.authority

theorem Gathers.addDirect (h : Gathers allowedDids all (b :: waiting) c) :
    Gathers allowedDids all waiting (addDirect allowedDids c b) := by
  unfold Auction.addDirect
  by_cases hdid : b.did ∈ allowedDids
  · rw [if_neg (not_not.2 hdid)]
    split_ifs with hseen
    · exact h.pop (.inl hseen)
    · exact (h.collect (h.offered b List.mem_cons_self) hdid hseen).pop
        (.inl (List.mem_append_right _ (List.mem_singleton_self _)))
  · rw [if_pos hdid]
    exact h.pop (.inr hdid)

/-- A window takes the whole queue. -/
theorem Gathers.drain (h : Gathers allowedDids all waiting c) :
    Gathers allowedDids all [] (waiting.foldl (Auction.addDirect allowedDids) c) := by
  induction waiting generalizing c with
  | nil => exact h
  | cons b waiting ih => exact ih h.addDirect

/-- A bid of the firehose. -/
theorem Gathers.see (h : Gathers allowedDids all waiting c) (hb : b.did = atUriAuthority b.uri) :
    Gathers allowedDids (all ++ [b]) waiting (see allowedDids c b) := by
  have hoffer : Gathers allowedDids (all ++ [b]) (b :: waiting) c :=
    h.offer hb fun b' => by rw [List.mem_cons, or_comm]
  have hmem : b ∈ all ++ [b] := List.mem_append_right _ (List.mem_singleton_self b)
  have hlast : b.uri ∈ c.seen ++ [b.uri] := List.mem_append_right _ (List.mem_singleton_self _)
  unfold BidWindow.see
  split_ifs with hseen hdid
  · exact hoffer.pop (.inl hseen)
  · exact (hoffer.collect hmem hdid hseen).pop (.inl hlast)
  · exact (hoffer.reject hmem hdid).pop (.inl hlast)

/-- With nothing left to wait, a window has what is eligible. -/
theorem Gathers.complete (h : Gathers allowedDids all [] c) : Complete allowedDids all c.bids where
  nodup := h.nodup
  eligible := h.eligible
  complete b hb hdid := by
    rcases h.known b hb with hnil | hseen | hnot
    · cases hnil
    · exact (h.kept b.uri hseen).resolve_right fun hnot => hnot (h.authority b hb ▸ hdid)
    · exact absurd hdid hnot

/-! ## The steps -/

/-- What is known of an RFP, by its window: before it opens, all that was offered waits; while it
    is open, it has the rest. -/
structure Inv (s : State) : Prop where
  before : ∀ rfpUri, s.windows.lookup rfpUri = none → ∀ allowedDids,
    Gathers allowedDids (s.offeredTo rfpUri) (pendingFor rfpUri s.pending) ⟨[], []⟩
  during : ∀ rfpUri win, s.windows.lookup rfpUri = some win → ¬ win.closed →
    Gathers win.allowedDids (s.offeredTo rfpUri) (pendingFor rfpUri s.pending) win.collector
  unheard : ∀ rfpUri win, s.windows.lookup rfpUri = some win → ¬ win.closed → ¬ win.connected →
    pendingFor rfpUri s.pending = [] ∧ win.result = some win.collector.bids

variable {s : State}

theorem inv_initial : Inv initial where
  before _ _ _ := Gathers.start (fun _ h => h) (fun _ h => h) fun _ h => absurd h List.not_mem_nil
  during _ _ h := by cases h
  unheard _ _ h := by cases h

theorem Inv.submitBid (h : Inv s) {req : SubmitBidRequest} (hheard : Heard w s (.submitBid req)) :
    Inv (step w s (.submitBid req)) := by
  rcases afterSubmit_eq (w := w) req s.pending with ⟨hnone, hsame⟩ | ⟨rfp, b, hsome, hpush, hdid⟩
  · have hstep : step w s (.submitBid req) = s := by
      dsimp only [step]
      rw [hnone, hsame]
    rwa [hstep]
  · have hstep : step w s (.submitBid req) =
        { s with pending := push rfp b s.pending, offered := push rfp b s.offered } := by
      dsimp only [step]
      rw [hsome, hpush]
    have hoffer : ∀ other allowedDids c,
        Gathers allowedDids (s.offeredTo other) (pendingFor other s.pending) c →
          Gathers allowedDids (pendingFor other (push rfp b s.offered))
            (pendingFor other (push rfp b s.pending)) c := by
      intro other allowedDids c hc
      rw [pendingFor_push, pendingFor_push]
      split_ifs with hother
      · subst hother
        exact hc.offer hdid fun b' => by rw [List.mem_append, List.mem_singleton]
      · exact hc
    rw [hstep]
    refine ⟨fun other hother allowedDids => hoffer _ _ _ (h.before other hother allowedDids),
      fun other win hwin hopen => hoffer _ _ _ (h.during other win hwin hopen),
      fun other win hwin hopen hconnected => ?_⟩
    obtain ⟨hnil, hresult⟩ := h.unheard other win hwin hopen hconnected
    have hne : other ≠ rfp := by
      rintro rfl
      rcases hheard _ hsome win hwin with hclosed | hheard
      · exact hopen hclosed
      · exact hconnected hheard
    exact ⟨by rw [pendingFor_push, if_neg hne, hnil], hresult⟩

/-- A step of the window of one RFP leaves the other RFPs as they are. -/
theorem Inv.set_window (h : Inv s) {s' : State} {win' : Window}
    (hwindows : s'.windows = set rfpUri win' s.windows)
    (hpending : ∀ other ≠ rfpUri, pendingFor other s'.pending = pendingFor other s.pending)
    (hoffered : ∀ other ≠ rfpUri, s'.offeredTo other = s.offeredTo other)
    (hduring : ¬ win'.closed → Gathers win'.allowedDids (s'.offeredTo rfpUri)
      (pendingFor rfpUri s'.pending) win'.collector)
    (hunheard : ¬ win'.closed → ¬ win'.connected →
      pendingFor rfpUri s'.pending = [] ∧ win'.result = some win'.collector.bids) : Inv s' := by
  have hlookup : ∀ other, s'.windows.lookup other =
      if other = rfpUri then some win' else s.windows.lookup other := by
    intro other
    rw [hwindows, lookup_set]
  refine ⟨fun other hother allowedDids => ?_, fun other win hwin hopen => ?_,
    fun other win hwin hopen hconnected => ?_⟩
  · rw [hlookup] at hother
    split_ifs at hother with hne
    rw [hpending other hne, hoffered other hne]
    exact h.before other hother allowedDids
  · rw [hlookup] at hwin
    split_ifs at hwin with heq
    · subst heq
      obtain rfl := Option.some.inj hwin
      exact hduring hopen
    · rw [hpending other heq, hoffered other heq]
      exact h.during other win hwin hopen
  · rw [hlookup] at hwin
    split_ifs at hwin with heq
    · subst heq
      obtain rfl := Option.some.inj hwin
      exact hunheard hopen hconnected
    · rw [hpending other heq]
      exact h.unheard other win hwin hopen hconnected

theorem pendingFor_erase_self (rfpUri : String) (pending : PendingBids) :
    pendingFor rfpUri (erase rfpUri pending) = [] := by
  rw [pendingFor_erase, if_pos rfl]

theorem pendingFor_erase_of_ne {other : String} (h : other ≠ rfpUri) (pending : PendingBids) :
    pendingFor other (erase rfpUri pending) = pendingFor other pending := by
  rw [pendingFor_erase, if_neg h]

theorem Inv.start (h : Inv s) (hnew : s.windows.lookup rfpUri = none) (allowedDids : List String)
    (connected : Bool) : Inv (start rfpUri allowedDids connected s) := by
  refine h.set_window rfl (fun other hne => pendingFor_erase_of_ne hne _) (fun _ _ => rfl)
    (fun _ => ?_) fun _ hconnected => ⟨pendingFor_erase_self _ _, if_neg hconnected⟩
  change Gathers allowedDids (s.offeredTo rfpUri) (pendingFor rfpUri (erase rfpUri s.pending)) _
  rw [pendingFor_erase_self]
  exact (h.before rfpUri hnew allowedDids).drain

theorem Inv.message (h : Inv s) {win : Window} (hwin : s.windows.lookup rfpUri = some win)
    (hconnected : win.connected) (hopen : ¬ win.closed) {msg : Value}
    (hdid : isDid (prop (some msg) "did")) : Inv (step w s (.message rfpUri msg)) := by
  have hgathers := h.during rfpUri win hwin hopen
  dsimp only [step]
  rw [hwin]
  dsimp only
  rw [if_pos ⟨hconnected, hopen⟩]
  rcases @afterMessage_eq w rfpUri win.allowedDids msg hdid win.collector with ⟨hnone, hsame⟩ | ⟨b, hsome, hsee, hauthority⟩
  · rw [hnone, hsame]
    exact h.set_window rfl (fun _ _ => rfl) (fun _ _ => rfl) (fun _ => hgathers)
      fun _ hnot => absurd hconnected hnot
  · rw [hsome, hsee]
    refine h.set_window rfl (fun _ _ => rfl) (fun other hne => ?_) (fun _ => ?_)
      fun _ hnot => absurd hconnected hnot
    · change pendingFor other (push rfpUri b s.offered) = _
      rw [pendingFor_push, if_neg hne]
      rfl
    · change Gathers _ (pendingFor rfpUri (push rfpUri b s.offered)) _ _
      rw [pendingFor_push, if_pos rfl]
      exact hgathers.see hauthority

theorem Inv.close (h : Inv s) (win : Window) : Inv (close rfpUri win s) := by
  unfold BidWindow.close
  split_ifs
  · exact h.set_window rfl (fun other hne => pendingFor_erase_of_ne hne _) (fun _ _ => rfl)
      (fun hopen => absurd rfl hopen) fun hopen => absurd rfl hopen
  · exact h.set_window rfl (fun _ _ => rfl) (fun _ _ => rfl)
      (fun hopen => absurd rfl hopen) fun hopen => absurd rfl hopen

theorem inv_step (h : Inv s) {e : Event} (hfirehose : FromFirehose e) (hheard : Heard w s e) :
    Inv (step w s e) := by
  cases e with
  | submitBid req => exact h.submitBid hheard
  | start rfpUri allowedDids connected =>
    dsimp only [step]
    split
    · next hnew => exact h.start hnew allowedDids connected
    · exact h
  | message rfpUri msg =>
    cases hwin : s.windows.lookup rfpUri with
    | none =>
      dsimp only [step]
      rwa [hwin]
    | some win =>
      by_cases hopen : win.connected ∧ ¬ win.closed
      · exact h.message hwin hopen.1 hopen.2 hfirehose
      · dsimp only [step]
        rw [hwin]
        dsimp only
        rwa [if_neg hopen]
  | close rfpUri =>
    dsimp only [step]
    split
    · exact h
    · next win _ =>
      split_ifs
      · exact h
      · exact h.close win

/-- A window that closes has returned what is eligible. -/
theorem close_returns (h : Inv s) {win : Window} (hwin : s.windows.lookup rfpUri = some win)
    (hopen : ¬ win.closed) : ∃ bids,
      ((close rfpUri win s).windows.lookup rfpUri).bind Window.result = some bids ∧
        Complete win.allowedDids (s.offeredTo rfpUri) bids ∧
        pendingFor rfpUri (close rfpUri win s).pending = [] := by
  have hgathers := h.during rfpUri win hwin hopen
  unfold close
  split_ifs with hconnected
  · refine ⟨_, ?_, hgathers.drain.complete, pendingFor_erase_self _ _⟩
    dsimp only
    rw [lookup_set, if_pos rfl]
    rfl
  · obtain ⟨hnil, hresult⟩ := h.unheard rfpUri win hwin hopen hconnected
    rw [hnil] at hgathers
    refine ⟨_, ?_, hgathers.complete, hnil⟩
    dsimp only
    rw [lookup_set, if_pos rfl]
    exact hresult

/-- The other queues are not touched. -/
theorem step_others (s : State) {e : Event} (he : rfpUri ∈ e.collects) {other : String}
    (hne : other ≠ rfpUri) :
    pendingFor other (step w s e).pending = pendingFor other s.pending := by
  cases e with
  | submitBid req => cases he
  | start rfp allowedDids connected =>
    obtain rfl := Option.some.inj he
    dsimp only [step]
    split
    · exact pendingFor_erase_of_ne hne _
    · rfl
  | message rfp msg =>
    dsimp only [step]
    split
    · rfl
    · split_ifs <;> rfl
  | close rfp =>
    obtain rfl := Option.some.inj he
    dsimp only [step, close]
    split
    · rfl
    · split_ifs
      · rfl
      · exact pendingFor_erase_of_ne hne _
      · rfl

theorem collects_step (h : Inv s) (e : Event) : Collects w s e := by
  refine ⟨?_, fun rfpUri he other hne => step_others s he hne⟩
  rintro rfpUri win rfl hwin hopen
  have hstep : step w s (.close rfpUri) = close rfpUri win s := by
    dsimp only [step]
    rw [hwin]
    dsimp only
    rw [if_neg hopen]
  rw [hstep]
  exact close_returns h hwin hopen

/-- Every window returns each eligible bid once, in every run where none is submitted for an RFP
    whose window is open without the firehose. -/
theorem collects_of_heard (w : World) (events : List Event)
    (h : Along (step w) (fun s e => FromFirehose e ∧ Heard w s e) initial events) :
    Along (step w) (Collects w) initial events := by
  have hstep : ∀ s e, Inv s → FromFirehose e ∧ Heard w s e →
      Collects w s e ∧ Inv (step w s e) := by
    intro s e hs he
    exact ⟨collects_step hs e, inv_step hs he.1 he.2⟩
  exact along_of_inv hstep inv_initial h

end

/-! ## A bid on both channels, and one that is lost -/

/-- A record that is signed is signed by its author, if its keys are published. -/
theorem signed_of_published {P : Primitives} {keyResolver : String → Except String KeyData}
    {keysForDid : String → List String} {record : RecordMap} {repositoryDid : String}
    (hsigned : verifyRecordSignatures P keyResolver none record repositoryDid)
    (hpublished : ∀ entry ∈ inlineEntries record, keyPublished keysForDid entry repositoryDid) :
    verifyRecordSignatures P keyResolver (some keysForDid) record repositoryDid := by
  obtain ⟨entry, hentry, hverifies⟩ := List.any_eq_true.1 hsigned
  refine List.any_eq_true.2 ⟨entry, hentry, ?_⟩
  rw [Bool.and_eq_true] at hverifies ⊢
  exact ⟨hverifies.1, hpublished entry hentry⟩

/-- Mallory's document has her key. -/
def sampleBidder : World :=
  { sampleWorld with keysForDid := fun did =>
      if did = "did:plc:mallory" then ["did:key:" ++ bidderKey.multibase] else [] }

def sampleOffer : RecordMap :=
  sampleBid "bafyreibnmoc2dvo7rqpxateyui4yjo3psdplmymp7hos4zrhhcn72ebl3a"
    "bafyreigzpkut4vzuke3hl7uyzphjufl4pyys25jveg7cvbifmmafp2iihq"
    "bafyreifhu2mkxot7xtcpuqtxd2cumxavbbeg325dqybbskwbovbqmyzdl4"

def sampleRequest : SubmitBidRequest :=
  ⟨.ok "did:plc:mallory", some (.object
    [("uri", .text s!"at://did:plc:mallory/{BID_NSID}/1"),
      ("cid", .text "bafyreigzpkut4vzuke3hl7uyzphjufl4pyys25jveg7cvbifmmafp2iihq"),
      ("record", .object sampleOffer)])⟩

theorem submitted_sample (pending : PendingBids) :
    submitted sampleBidder sampleRequest pending = some (sampleRfpUri,
      sampleCollected "bafyreigzpkut4vzuke3hl7uyzphjufl4pyys25jveg7cvbifmmafp2iihq" sampleOffer) := by
  have hauthority : atUriAuthority s!"at://did:plc:mallory/{BID_NSID}/1" = "did:plc:mallory" := by
    decide +kernel
  have hsigned : verifyRecordSignatures sampleBidder.primitives sampleBidder.keyResolver
      (some sampleBidder.keysForDid) sampleOffer
      (atUriAuthority s!"at://did:plc:mallory/{BID_NSID}/1") := by
    rw [hauthority]
    exact signed_of_published (sampleBid_signed (by decide +kernel) (by decide +kernel)
      (by decide +kernel)) (by decide +kernel)
  have hrecord : verifyAuthored sampleBidder (some (.object sampleOffer))
      s!"at://did:plc:mallory/{BID_NSID}/1" = .ok sampleOffer := by
    unfold verifyAuthored
    dsimp only
    rw [if_pos hsigned]
  have hok : submitBid sampleBidder sampleRequest pending = .ok (push sampleRfpUri
      (sampleCollected "bafyreigzpkut4vzuke3hl7uyzphjufl4pyys25jveg7cvbifmmafp2iihq" sampleOffer)
      pending) :=
    bind_eq_ok.2 ⟨(), rfl, bind_eq_ok.2 ⟨(), rfl, bind_eq_ok.2 ⟨_, rfl, bind_eq_ok.2 ⟨(), rfl,
      bind_eq_ok.2 ⟨_, hrecord, rfl⟩⟩⟩⟩⟩
  unfold submitted
  rw [hok]
  rfl

/-- Mallory submits her bid while the window is open, and the firehose shows it. -/
theorem collects_sample : Along (step sampleBidder) (Collects sampleBidder) initial
    [.start sampleRfpUri ["did:plc:mallory"] true, .submitBid sampleRequest,
      .message sampleRfpUri (sampleMessage
        "bafyreigzpkut4vzuke3hl7uyzphjufl4pyys25jveg7cvbifmmafp2iihq" sampleOffer),
      .close sampleRfpUri] := by
  refine collects_of_heard sampleBidder _ ⟨⟨trivial, trivial⟩, ⟨trivial, fun e he win hwin => ?_⟩,
    ⟨rfl, trivial⟩, ⟨trivial, trivial⟩, trivial⟩
  rw [submitted_sample] at he
  obtain rfl := Option.some.inj he
  obtain rfl := Option.some.inj hwin
  exact .inr rfl

/-- Without the firehose, nothing is taken when the window closes. -/
theorem step_close_unheard {w : World} {s : State} {rfpUri : String} {win : Window}
    (hwin : s.windows.lookup rfpUri = some win) (hconnected : ¬ win.connected) :
    (step w s (.close rfpUri)).pending = s.pending := by
  dsimp only [step]
  rw [hwin]
  dsimp only [close]
  rw [if_neg hconnected]
  split_ifs <;> rfl

/-- The firehose cannot be opened: the bid is not returned, and waits forever. -/
theorem not_collects : ¬ ∀ (w : World) (events : List Event), (∀ e ∈ events, FromFirehose e) →
    Along (step w) (Collects w) initial events := by
  intro hall
  have hrun := hall sampleBidder [.start sampleRfpUri ["did:plc:mallory"] false,
    .submitBid sampleRequest, .close sampleRfpUri] (by simp [FromFirehose])
  obtain ⟨bids, -, -, hnil⟩ := hrun.2.2.1.returns sampleRfpUri _ rfl rfl Bool.false_ne_true
  rw [step_close_unheard rfl Bool.false_ne_true] at hnil
  dsimp only [step] at hnil
  rcases afterSubmit_eq (w := sampleBidder) sampleRequest
    (step sampleBidder initial (.start sampleRfpUri ["did:plc:mallory"] false)).pending with
    ⟨hnone, -⟩ | ⟨_, _, hsome, hpush, -⟩
  · rw [submitted_sample] at hnone
    cases hnone
  · rw [submitted_sample] at hsome
    obtain ⟨rfl, rfl⟩ := Prod.mk.inj (Option.some.inj hsome)
    dsimp only [step] at hpush
    rw [hpush, pendingFor_push, if_pos rfl] at hnil
    exact absurd hnil (List.append_ne_nil_of_right_ne_nil _ (List.cons_ne_nil _ _))

end ComputeContract.Auction.BidWindow
