import Mathlib.Data.List.Chain
import ComputeContract.Plc.Authorization

/-!
# The log as a chain

The handler reads the log, checks, nullifies and inserts with an `await` in between: each
request is in a phase, and an event lets one of them go on. The entries that are not
nullified should form a chain, each behind the one that its `prev` names, with no CID
twice in the log.

* `store_alone`: a request that goes on alone does what `handleCreateOp` does.
* `log_linear`: the logs are chains, as long as every request finds the log that it read,
  inserts no operation that is there already, no `create` but as the first, and no
  tombstone but behind the last.
-/

namespace ComputeContract.Plc

open AssocList

/-! ## Requests in flight -/

/-- Where a request is. `live` tells that `getAuditLog` gave the array of the store, and
    not a new one. -/
inductive Phase
  | reading (live : Bool)
  | listing (live : Bool) (currentOps : List LogEntry)
  | checked (currentOps : List LogEntry) (cid : String)
  | nullified (currentOps : List LogEntry) (cid : String)

structure Request where
  did : String
  operation : Json
  phase : Phase

structure Directory where
  store : PlcStore
  requests : List (ℕ × Request)

inductive Event
  /-- The body of a post was read. -/
  | post (id : ℕ) (did : String) (body : Option Json)
  /-- A request goes on up to its next `await`. -/
  | advance (id : ℕ)

namespace Directory

def new : Directory := ⟨[], []⟩

/-- The request waits in the phase. -/
def wait (s : Directory) (id : ℕ) (r : Request) (phase : Phase) : Directory :=
  { s with requests := set id { r with phase := phase } s.requests }

/-- The request is answered. -/
def answer (s : Directory) (id : ℕ) : Directory := { s with requests := erase id s.requests }

def insert (s : Directory) (id : ℕ) (r : Request) (cid : String) : Directory :=
  { s.answer id with store := insertOp s.store ⟨r.did, r.operation, cid, false⟩ }

def advance (deps : HandlerDeps) (s : Directory) (id : ℕ) (r : Request) : Directory :=
  match r.phase with
  | .reading live => s.wait id r (.listing live (getCurrentOps s.store r.did))
  | .listing live currentOps =>
    let existingOps := if live then getAuditLog s.store r.did else []
    match checkOperation deps r.operation existingOps currentOps with
    | some _ => s.answer id
    | none =>
      match operationCid deps r.operation with
      | none => s.answer id
      | some cid => s.wait id r (.checked currentOps cid)
  | .checked currentOps cid =>
    match recoveryIndex r.operation currentOps with
    | none => s.insert id r cid
    | some i =>
      { s.wait id r (.nullified currentOps cid) with
        store := nullifyOps s.store r.did (overridden i currentOps) }
  | .nullified _ cid => s.insert id r cid

def step (deps : HandlerDeps) (s : Directory) : Event → Directory
  | .post id did body =>
    match body with
    | none => s
    | some op =>
      match validateOperationStructure deps op with
      | some _ => s
      | none => s.wait id ⟨did, op, .reading false⟩ (.reading (s.store.lookup did).isSome)
  | .advance id =>
    match s.requests.lookup id with
    | none => s
    | some r => s.advance deps id r

/-- The id of a post is new. -/
def Possible (s : Directory) : Event → Prop
  | .post id _ _ => id ∉ keys s.requests
  | .advance _ => True

/-- The states that are reached by events that are possible and `ok`. -/
inductive Reachable (deps : HandlerDeps) (ok : Directory → Event → Prop) : Directory → Prop
  | new : Reachable deps ok new
  | step {s : Directory} (e : Event) : Reachable deps ok s → s.Possible e → ok s e →
      Reachable deps ok (s.step deps e)

theorem step_advance {deps : HandlerDeps} {s : Directory} {id : ℕ} {r : Request}
    (h : s.requests.lookup id = some r) : s.step deps (.advance id) = s.advance deps id r := by
  change (match s.requests.lookup id with | none => s | some r => s.advance deps id r) = _
  rw [h]

/-- Nothing goes on for a request that was answered. -/
theorem step_advance_none {deps : HandlerDeps} {s : Directory} {id : ℕ}
    (h : s.requests.lookup id = none) : s.step deps (.advance id) = s := by
  change (match s.requests.lookup id with | none => s | some r => s.advance deps id r) = _
  rw [h]

/-- What is no operation is refused at once. -/
theorem step_post_invalid {deps : HandlerDeps} {op : Json} {message : String}
    (h : validateOperationStructure deps op = some message) (s : Directory) (id : ℕ) (did : String) :
    s.step deps (.post id did (some op)) = s := by
  unfold step
  dsimp only
  rw [h]

theorem step_post {deps : HandlerDeps} {op : Json} (h : validateOperationStructure deps op = none)
    (s : Directory) (id : ℕ) (did : String) :
    s.step deps (.post id did (some op)) =
      s.wait id ⟨did, op, .reading false⟩ (.reading (s.store.lookup did).isSome) := by
  unfold step
  dsimp only
  rw [h]

@[simp] theorem store_wait (s : Directory) (id : ℕ) (r : Request) (phase : Phase) :
    (s.wait id r phase).store = s.store := rfl

@[simp] theorem store_answer (s : Directory) (id : ℕ) : (s.answer id).store = s.store := rfl

theorem step_wait (deps : HandlerDeps) (s : Directory) (id : ℕ) (r : Request) (phase : Phase) :
    (s.wait id r phase).step deps (.advance id) =
      (s.wait id r phase).advance deps id { r with phase := phase } :=
  step_advance (by rw [wait, lookup_set, if_pos rfl])

theorem lookup_answer (s : Directory) (id : ℕ) : (s.answer id).requests.lookup id = none := by
  rw [answer, lookup_erase, if_pos rfl]

theorem lookup_insert (s : Directory) (id : ℕ) (r : Request) (cid : String) :
    (s.insert id r cid).requests.lookup id = none := lookup_answer s id

/-- A request comes in and goes on alone. -/
def alone (deps : HandlerDeps) (s : Directory) (id : ℕ) (did : String) (body : Option Json) :
    Directory :=
  [.post id did body, .advance id, .advance id, .advance id, .advance id].foldl (step deps) s

/-- A request that goes on alone does what the handler does in one go. -/
theorem store_alone (deps : HandlerDeps) (s : Directory) (id : ℕ) (did : String)
    (body : Option Json) (hid : id ∉ keys s.requests) :
    (s.alone deps id did body).store = (handleCreateOp deps s.store did body).1 := by
  have hnew : s.requests.lookup id = none := lookup_eq_none_iff.2 hid
  simp only [alone, List.foldl_cons, List.foldl_nil]
  unfold handleCreateOp
  cases body with
  | none =>
    have hpost : s.step deps (.post id did none) = s := rfl
    simp only [hpost, step_advance_none hnew]
  | some op =>
    dsimp only
    cases hstruct : validateOperationStructure deps op with
    | some message => simp only [step_post_invalid hstruct, step_advance_none hnew]
    | none =>
      -- The array that was read is the log, also when it is a new one.
      have hlive : (if (s.store.lookup did).isSome then getAuditLog s.store did else []) =
          getAuditLog s.store did := by
        unfold getAuditLog
        cases s.store.lookup did <;> rfl
      rw [step_post hstruct, step_wait]
      unfold advance
      dsimp only
      rw [step_wait]
      unfold advance
      dsimp only
      rw [store_wait, store_wait, hlive]
      cases checkOperation deps op (getAuditLog s.store did) (getCurrentOps s.store did) with
      | some response => simp only [step_advance_none (lookup_answer _ id), store_answer, store_wait]
      | none =>
        dsimp only
        cases operationCid deps op with
        | none => simp only [step_advance_none (lookup_answer _ id), store_answer, store_wait]
        | some cid =>
          dsimp only
          rw [step_wait]
          unfold advance nullifyOverridden
          dsimp only
          cases recoveryIndex op (getCurrentOps s.store did) with
          | none =>
            simp only [step_advance_none (lookup_insert _ id _ _)]
            rfl
          | some i =>
            dsimp only
            rw [step_advance (r := ⟨did, op, .nullified (getCurrentOps s.store did) cid⟩)]
            · rfl
            · exact (lookup_set ..).trans (if_pos rfl)

end Directory

/-! ## Chains -/

/-- The second entry names the first one. -/
def Follows (e e' : LogEntry) : Prop := prevCid e'.operation = some e.cid

/-- The entries that are not nullified form a chain, and no CID is twice in the log. -/
structure Linear (log : List LogEntry) : Prop where
  genesis : ∀ e ∈ (current log).head?, isNull (field e.operation "prev") = true
  chain : (current log).IsChain Follows
  nodup : (log.map LogEntry.cid).Nodup

theorem linear_nil : Linear [] where
  genesis := by simp [current]
  chain := List.isChain_nil
  nodup := List.nodup_nil

theorem nodup_current {log : List LogEntry} (h : (log.map LogEntry.cid).Nodup) :
    ((current log).map LogEntry.cid).Nodup :=
  h.sublist (List.filter_sublist.map _)

theorem cids_nullify (cids : List String) (log : List LogEntry) :
    (log.map (LogEntry.nullify cids)).map LogEntry.cid = log.map LogEntry.cid := by
  rw [List.map_map]
  exact List.map_congr_left fun e _ => cid_nullify cids e

/-- What is current after a nullification. -/
theorem current_nullify (cids : List String) (log : List LogEntry) :
    current (log.map (LogEntry.nullify cids)) = (current log).filter fun e => e.cid ∉ cids := by
  induction log with
  | nil => rfl
  | cons e log ih =>
    unfold current at ih ⊢
    rw [List.map_cons, List.filter_cons, List.filter_cons, ih]
    by_cases hcid : e.cid ∈ cids
    · cases e.nullified <;> simp [LogEntry.nullify, hcid]
    · cases hnull : e.nullified <;> simp [LogEntry.nullify, hcid, hnull]

/-- A recovery keeps the operations up to the one at `i`. -/
theorem filter_overridden (i : ℕ) {currentOps : List LogEntry}
    (h : (currentOps.map LogEntry.cid).Nodup) :
    (currentOps.filter fun e => e.cid ∉ overridden i currentOps) = currentOps.take (i + 1) := by
  have hsplit := List.take_append_drop (i + 1) currentOps
  have hnodup := h
  rw [← hsplit, List.map_append] at hnodup
  have hdisjoint := List.disjoint_of_nodup_append hnodup
  have htake : ((currentOps.take (i + 1)).filter fun e => e.cid ∉ overridden i currentOps) =
      currentOps.take (i + 1) :=
    List.filter_eq_self.2 fun e he =>
      decide_eq_true fun hover => hdisjoint (List.mem_map_of_mem he) hover
  have hdrop : ((currentOps.drop (i + 1)).filter fun e => e.cid ∉ overridden i currentOps) = [] :=
    List.filter_eq_nil_iff.2 fun e he hkeep =>
      of_decide_eq_true hkeep (List.mem_map_of_mem he)
  calc (currentOps.filter fun e => e.cid ∉ overridden i currentOps)
      = ((currentOps.take (i + 1) ++ currentOps.drop (i + 1)).filter
          fun e => e.cid ∉ overridden i currentOps) := by rw [hsplit]
    _ = currentOps.take (i + 1) := by rw [List.filter_append, htake, hdrop, List.append_nil]

/-- What is current after a recovery on the operations that were read. -/
theorem current_recover {log : List LogEntry} (h : (log.map LogEntry.cid).Nodup) (i : ℕ) :
    current (log.map (LogEntry.nullify (overridden i (current log)))) = (current log).take (i + 1) := by
  rw [current_nullify, filter_overridden i (nodup_current h)]

theorem Linear.recover {log : List LogEntry} (h : Linear log) (i : ℕ) :
    Linear (log.map (LogEntry.nullify (overridden i (current log)))) where
  genesis := by
    rw [current_recover h.nodup, List.head?_take, if_neg i.succ_ne_zero]
    exact h.genesis
  chain := by
    rw [current_recover h.nodup]
    exact h.chain.take _
  nodup := by
    rw [cids_nullify]
    exact h.nodup

/-- An operation is put behind a chain: it names the last entry, or is a genesis. -/
theorem Linear.insert {log : List LogEntry} (h : Linear log) {e : LogEntry}
    (hcurrent : e.nullified = false) (hnew : e.cid ∉ log.map LogEntry.cid)
    (hgenesis : current log = [] → isNull (field e.operation "prev") = true)
    (hlast : ∀ last ∈ (current log).getLast?, Follows last e) : Linear (log ++ [e]) := by
  have happend : current (log ++ [e]) = current log ++ [e] := by
    unfold current
    rw [List.filter_append, List.filter_cons_of_pos (by simp [hcurrent]), List.filter_nil]
  refine ⟨?_, ?_, ?_⟩
  · rw [happend, List.head?_append]
    cases hhead : (current log).head? with
    | none =>
      intro e' he'
      cases he'
      exact hgenesis (List.head?_eq_none_iff.1 hhead)
    | some first =>
      intro e' he'
      cases he'
      exact h.genesis _ hhead
  · rw [happend, List.isChain_append]
    refine ⟨h.chain, List.isChain_singleton e, fun last hmem e' he' => ?_⟩
    cases he'
    exact hlast last hmem
  · rw [List.map_append, List.nodup_append']
    refine ⟨h.nodup, List.nodup_singleton _, ?_⟩
    exact List.disjoint_singleton.2 hnew

/-! ## Requests in turn -/

/-- The operations that are left when a recovery has nullified what it overrides. -/
def kept (op : Json) (currentOps : List LogEntry) : List LogEntry :=
  match recoveryIndex op currentOps with
  | some i => currentOps.take (i + 1)
  | none => currentOps

/-- The log holds the operation. -/
def Holds (log : List LogEntry) (cid : String) : Prop := cid ∈ log.map LogEntry.cid

/-- Where the checks do not look: a `create` is the first operation, with `prev` null, and
    a tombstone names the last one. -/
def Placed (op : Json) (log : List LogEntry) : Prop :=
  (opType op = some "create" → log = [] ∧ isNull (field op "prev") = true) ∧
  (opType op = some "plc_tombstone" →
    ∀ last ∈ (current log).getLast?, prevCid op = some last.cid)

/-- The log is the one that the request read, and does not hold the operation. -/
def Turn (deps : HandlerDeps) (log : List LogEntry) (op : Json) : Phase → Prop
  | .reading _ => True
  | .listing live currentOps =>
    checkOperation deps op (if live then log else []) currentOps = none →
      (live = false → log = []) ∧ current log = currentOps
  | .checked currentOps cid => current log = currentOps ∧ ¬ Holds log cid ∧ Placed op log
  | .nullified currentOps cid => current log = kept op currentOps ∧ ¬ Holds log cid

/-- The request that goes on is in turn. -/
def InTurn (deps : HandlerDeps) (s : Directory) : Event → Prop
  | .post _ _ _ => True
  | .advance id => ∀ r ∈ s.requests.lookup id,
    Turn deps (getAuditLog s.store r.did) r.operation r.phase

/-- What the checks tell about an operation: it is a genesis, or names a current one. -/
def Checked (op : Json) (currentOps : List LogEntry) : Prop :=
  isNull (field op "prev") = true ∧ currentOps = [] ∨
    ∃ named ∈ currentOps, prevCid op = some named.cid

/-- What is known of a request in its phase. -/
def Request.Sound (deps : HandlerDeps) (r : Request) : Prop :=
  validateOperationStructure deps r.operation = none ∧
  match r.phase with
  | .reading _ | .listing _ _ => True
  | .checked currentOps cid =>
    operationCid deps r.operation = some cid ∧
      (isChained r.operation = true → Checked r.operation currentOps)
  | .nullified currentOps cid =>
    operationCid deps r.operation = some cid ∧ (recoveryIndex r.operation currentOps).isSome

theorem checked_of_check {deps : HandlerDeps} {op : Json} {log : List LogEntry}
    (h : checkOperation deps op log (current log) = none) (hchained : isChained op = true) :
    Checked op (current log) := by
  unfold checkOperation at h
  rw [if_pos hchained] at h
  cases hprev : validatePrevChain (field op "prev") log with
  | some message =>
    rw [hprev] at h
    cases h
  | none =>
    rcases validatePrevChain_eq_none.1 hprev with ⟨hnull, hlog⟩ | hnamed
    · exact .inl ⟨hnull, by rw [hlog]; rfl⟩
    · exact .inr hnamed

/-- A recovery goes back to the operation that is named, which is not the last one. -/
theorem recoveryIndex_spec {op : Json} {currentOps : List LogEntry} {i : ℕ}
    (h : recoveryIndex op currentOps = some i) :
    ∃ named, currentOps[i]? = some named ∧ prevCid op = some named.cid := by
  unfold recoveryIndex at h
  split_ifs at h with htype
  obtain ⟨hfind, _⟩ := Option.filter_eq_some_iff.1 h
  obtain ⟨hlt, hnamed, _⟩ := List.findIdx?_eq_some_iff_getElem.1 hfind
  exact ⟨currentOps[i], List.getElem?_eq_getElem hlt, of_decide_eq_true hnamed⟩

/-- Where there is nothing to recover, the operation that is named is the last one. -/
theorem last_of_recoveryIndex {op : Json} {currentOps : List LogEntry} {named : LogEntry}
    (h : recoveryIndex op currentOps = none) (htype : opType op = some "plc_operation")
    (hmem : named ∈ currentOps) (hnamed : prevCid op = some named.cid) :
    ∀ last ∈ currentOps.getLast?, prevCid op = some last.cid := by
  intro last hlast
  obtain ⟨init, rfl⟩ := List.getLast?_eq_some_iff.1 hlast
  rcases List.mem_append.1 hmem with hbefore | heq
  · have hrecovers : ∃ i, recoveryIndex op (init ++ [last]) = some i ∧
        last.cid ∈ overridden i (init ++ [last]) := recoveryIndex_eq_some htype hbefore hnamed
    obtain ⟨i, hi, _⟩ := hrecovers
    rw [h] at hi
    cases hi
  · rw [← List.mem_singleton.1 heq]
    exact hnamed

/-- An operation that passed the checks and recovers nothing is put behind the chain. -/
theorem Linear.insert_checked {deps : HandlerDeps} {log : List LogEntry} (h : Linear log)
    {did cid : String} {op : Json} (hstruct : validateOperationStructure deps op = none)
    (hnew : ¬ Holds log cid) (hplaced : Placed op log)
    (hchecked : isChained op = true → Checked op (current log))
    (hrecovery : recoveryIndex op (current log) = none) : Linear (log ++ [⟨did, op, cid, false⟩]) := by
  rcases opType_cases hstruct with hcreate | hchained
  · obtain ⟨hlog, hnull⟩ := hplaced.1 hcreate
    refine h.insert rfl hnew (fun _ => hnull) fun last hlast => ?_
    rw [hlog] at hlast
    cases hlast
  · rcases hchecked hchained with ⟨hnull, hempty⟩ | ⟨named, hmem, hnamed⟩
    · refine h.insert rfl hnew (fun _ => hnull) fun last hlast => ?_
      rw [hempty] at hlast
      cases hlast
    · refine h.insert rfl hnew (fun hempty => ?_) ?_
      · rw [hempty] at hmem
        cases hmem
      · rcases of_decide_eq_true hchained with hplc | htombstone
        · exact last_of_recoveryIndex hrecovery hplc hmem hnamed
        · exact hplaced.2 htombstone

/-- An operation that has recovered is put behind the one that it names. -/
theorem Linear.insert_recovered {log currentOps : List LogEntry} (h : Linear log)
    {did cid : String} {op : Json} (hnew : ¬ Holds log cid)
    (hrecovery : (recoveryIndex op currentOps).isSome) (hkept : current log = kept op currentOps) :
    Linear (log ++ [⟨did, op, cid, false⟩]) := by
  obtain ⟨i, hi⟩ := Option.isSome_iff_exists.1 hrecovery
  obtain ⟨named, hget, hnamed⟩ := recoveryIndex_spec hi
  have hcurrent : current log = currentOps.take i ++ [named] := by
    rw [hkept, kept, hi]
    dsimp only
    rw [List.take_add_one, hget]
    rfl
  refine h.insert rfl hnew (fun hempty => ?_) fun last hlast => ?_
  · rw [hcurrent] at hempty
    exact absurd hempty (by simp)
  · rw [hcurrent, List.getLast?_concat] at hlast
    cases hlast
    exact hnamed

namespace Directory

variable {deps : HandlerDeps} {s : Directory}

/-- The logs are chains, and the requests are what their phase tells. -/
structure Inv (deps : HandlerDeps) (s : Directory) : Prop where
  linear : ∀ did, Linear (getAuditLog s.store did)
  sound : ∀ {id r}, s.requests.lookup id = some r → r.Sound deps

theorem inv_new : Inv deps new where
  linear did := linear_nil
  sound h := by cases h

theorem Inv.wait (h : Inv deps s) {id : ℕ} {r : Request} {phase : Phase}
    (hsound : Request.Sound deps { r with phase := phase }) : Inv deps (s.wait id r phase) where
  linear := h.linear
  sound {id' r'} hr' := by
    unfold Directory.wait at hr'
    rw [lookup_set] at hr'
    split_ifs at hr'
    · cases hr'
      exact hsound
    · exact h.sound hr'

theorem Inv.answer (h : Inv deps s) (id : ℕ) : Inv deps (s.answer id) where
  linear := h.linear
  sound {id' r'} hr' := by
    unfold Directory.answer at hr'
    rw [lookup_erase] at hr'
    split_ifs at hr'
    exact h.sound hr'

theorem Inv.insert (h : Inv deps s) {id : ℕ} {r : Request} {cid : String}
    (hlinear : Linear (getAuditLog s.store r.did ++ [⟨r.did, r.operation, cid, false⟩])) :
    Inv deps (s.insert id r cid) where
  linear did := by
    unfold Directory.insert
    rw [getAuditLog_insertOp]
    split_ifs with hdid
    · rw [hdid]
      exact hlinear
    · exact h.linear did
  sound hr' := (h.answer id).sound hr'

/-- A request that recovers nullifies what it overrides. -/
theorem Inv.recover (h : Inv deps s) {id : ℕ} {r : Request} {currentOps : List LogEntry}
    {cid : String} {i : ℕ} (hturn : current (getAuditLog s.store r.did) = currentOps)
    (hsound : Request.Sound deps { r with phase := .nullified currentOps cid }) :
    Inv deps { s.wait id r (.nullified currentOps cid) with
      store := nullifyOps s.store r.did (overridden i currentOps) } where
  linear did := by
    rw [getAuditLog_nullifyOps]
    split_ifs with hdid
    · rw [hdid, ← hturn]
      exact (h.linear r.did).recover i
    · exact h.linear did
  sound hr' := (h.wait hsound).sound hr'

theorem inv_advance (h : Inv deps s) {id : ℕ} {r : Request} (hr : s.requests.lookup id = some r)
    (hturn : InTurn deps s (.advance id)) : Inv deps (s.advance deps id r) := by
  have hsound := h.sound hr
  have hturn := hturn r hr
  obtain ⟨did, op, phase⟩ := r
  obtain ⟨hstruct, hphase⟩ := hsound
  unfold advance
  cases phase with
  | reading live => exact h.wait ⟨hstruct, trivial⟩
  | listing live currentOps =>
    dsimp only at hturn ⊢
    cases hcheck : checkOperation deps op (if live then getAuditLog s.store did else []) currentOps with
    | some response => exact h.answer id
    | none =>
      dsimp only
      cases hcid : operationCid deps op with
      | none => exact h.answer id
      | some cid =>
        obtain ⟨hlive, hcurrent⟩ := hturn hcheck
        refine h.wait ⟨hstruct, hcid, fun hchained => ?_⟩
        have hlog : (if live then getAuditLog s.store did else []) = getAuditLog s.store did := by
          cases live with
          | true => rfl
          | false => exact (hlive rfl).symm
        rw [hlog, ← hcurrent] at hcheck
        rw [← hcurrent]
        exact checked_of_check hcheck hchained
  | checked currentOps cid =>
    obtain ⟨hcurrent, hnew, hplaced⟩ := hturn
    obtain ⟨hcid, hchecked⟩ := hphase
    dsimp only
    cases hrecovery : recoveryIndex op currentOps with
    | none =>
      rw [← hcurrent] at hchecked hrecovery
      exact h.insert ((h.linear did).insert_checked hstruct hnew hplaced hchecked hrecovery)
    | some i => exact h.recover hcurrent ⟨hstruct, hcid, by rw [hrecovery]; rfl⟩
  | nullified currentOps cid =>
    obtain ⟨hkept, hnew⟩ := hturn
    exact h.insert ((h.linear did).insert_recovered hnew hphase.2 hkept)

theorem inv_step (h : Inv deps s) {e : Event} (hturn : InTurn deps s e) :
    Inv deps (s.step deps e) := by
  cases e with
  | post id did body =>
    unfold step
    cases body with
    | none => exact h
    | some op =>
      dsimp only
      cases hstruct : validateOperationStructure deps op with
      | some message => exact h
      | none => exact h.wait ⟨hstruct, trivial⟩
  | advance id =>
    cases hr : s.requests.lookup id with
    | none =>
      rw [step_advance_none hr]
      exact h
    | some r =>
      rw [step_advance hr]
      exact inv_advance h hr hturn

theorem inv_of_reachable (h : Reachable deps (InTurn deps) s) : Inv deps s := by
  induction h with
  | new => exact inv_new
  | step e _ _ hturn ih => exact inv_step ih hturn

/-- A request in turn whose operation is in the log already changes nothing. -/
theorem store_advance (h : Inv deps s) {id : ℕ} {r : Request} {cid : String}
    (hr : s.requests.lookup id = some r) (hturn : InTurn deps s (.advance id))
    (hcid : operationCid deps r.operation = some cid)
    (hholds : Holds (getAuditLog s.store r.did) cid) :
    (s.step deps (.advance id)).store = s.store := by
  have hturn := hturn r hr
  have hsound := h.sound hr
  rw [step_advance hr]
  obtain ⟨did, op, phase⟩ := r
  obtain ⟨_, hphase⟩ := hsound
  unfold advance
  cases phase with
  | reading live => rfl
  | listing live currentOps =>
    dsimp only
    split
    · rfl
    · split <;> rfl
  | checked currentOps cid' =>
    cases hcid.symm.trans hphase.1
    exact absurd hholds hturn.2.1
  | nullified currentOps cid' =>
    cases hcid.symm.trans hphase.1
    exact absurd hholds hturn.2

/-- In every run whose requests are in turn, the current operations of every did are a
    chain from a genesis, no CID is twice in a log, and an operation that is in the log
    already changes nothing. -/
theorem log_linear {deps : HandlerDeps} {s : Directory} (h : Reachable deps (InTurn deps) s) :
    (∀ did, Linear (getAuditLog s.store did)) ∧
      ∀ id r cid, s.requests.lookup id = some r → operationCid deps r.operation = some cid →
        Holds (getAuditLog s.store r.did) cid → InTurn deps s (.advance id) →
        (s.step deps (.advance id)).store = s.store :=
  ⟨(inv_of_reachable h).linear, fun _ _ _ hr hcid hholds hturn =>
    store_advance (inv_of_reachable h) hr hturn hcid hholds⟩

/-! ## One request after the other -/

/-- The operation is not in the log, and in its place. -/
def Fits (deps : HandlerDeps) (log : List LogEntry) (op : Json) : Prop :=
  Placed op log ∧ ∀ cid ∈ operationCid deps op, ¬ Holds log cid

/-- What is known in `t` of a request that came in in `s` and went on alone. -/
def Solo (deps : HandlerDeps) (s t : Directory) (did : String) (op : Json) : Phase → Prop
  | .reading live => t.store = s.store ∧ live = (s.store.lookup did).isSome
  | .listing live currentOps => t.store = s.store ∧ live = (s.store.lookup did).isSome ∧
      currentOps = getCurrentOps s.store did
  | .checked currentOps cid => t.store = s.store ∧ operationCid deps op = some cid ∧
      currentOps = getCurrentOps s.store did
  | .nullified currentOps cid => operationCid deps op = some cid ∧
      ∃ i, recoveryIndex op currentOps = some i ∧ currentOps = getCurrentOps s.store did ∧
        t.store = nullifyOps s.store did (overridden i currentOps)

/-- Alone, a request whose operation fits is in turn. -/
theorem Solo.turn {t : Directory} {did : String} {op : Json} {phase : Phase}
    (h : Solo deps s t did op phase) (hlinear : Linear (getAuditLog s.store did))
    (hfits : Fits deps (getAuditLog s.store did) op) :
    Turn deps (getAuditLog t.store did) op phase := by
  cases phase with
  | reading live => trivial
  | listing live currentOps =>
    obtain ⟨hstore, hlive, hcurrent⟩ := h
    rw [hstore]
    intro _
    refine ⟨fun hdead => ?_, hcurrent.symm⟩
    rw [hlive, Option.isSome_eq_false_iff, Option.isNone_iff_eq_none] at hdead
    rw [getAuditLog, hdead]
    rfl
  | checked currentOps cid =>
    obtain ⟨hstore, hcid, hcurrent⟩ := h
    rw [hstore]
    exact ⟨hcurrent.symm, hfits.2 cid hcid, hfits.1⟩
  | nullified currentOps cid =>
    obtain ⟨hcid, i, hi, hcurrent, hstore⟩ := h
    rw [hstore, getAuditLog_nullifyOps, if_pos rfl]
    constructor
    · rw [kept, hi, hcurrent]
      exact current_recover hlinear.nodup i
    · unfold Holds
      rw [cids_nullify]
      exact hfits.2 cid hcid

/-- The request is answered, or alone in its phase. -/
def Stays (deps : HandlerDeps) (s t : Directory) (id : ℕ) (did : String) (op : Json) : Prop :=
  ∀ r ∈ t.requests.lookup id, ∃ phase, r = ⟨did, op, phase⟩ ∧ Solo deps s t did op phase

theorem stays_of_none {t : Directory} {id : ℕ} {did : String} {op : Json}
    (h : t.requests.lookup id = none) : Stays deps s t id did op := by
  intro r hr
  rw [h] at hr
  cases hr

theorem stays_wait {t : Directory} {id : ℕ} {did : String} {op : Json} {phase phase' : Phase}
    (h : Solo deps s t did op phase') : Stays deps s (t.wait id ⟨did, op, phase⟩ phase') id did op := by
  intro r hr
  rw [wait, lookup_set, if_pos rfl] at hr
  cases hr
  exact ⟨phase', rfl, by cases phase' <;> exact h⟩

theorem stays_advance {t : Directory} {id : ℕ} {did : String} {op : Json}
    (h : Stays deps s t id did op) : Stays deps s (t.step deps (.advance id)) id did op := by
  cases hr : t.requests.lookup id with
  | none =>
    rw [step_advance_none hr]
    exact h
  | some r =>
    rw [step_advance hr]
    obtain ⟨phase, rfl, hsolo⟩ := h r hr
    unfold advance
    cases phase with
    | reading live =>
      refine stays_wait ⟨hsolo.1, hsolo.2, ?_⟩
      rw [hsolo.1]
    | listing live currentOps =>
      dsimp only
      split
      · exact stays_of_none (lookup_answer t id)
      · split
        · exact stays_of_none (lookup_answer t id)
        · rename_i cid hcid
          exact stays_wait ⟨hsolo.1, hcid, hsolo.2.2⟩
    | checked currentOps cid =>
      obtain ⟨hstore, hcid, hcurrent⟩ := hsolo
      dsimp only
      split
      · exact stays_of_none (lookup_insert t id _ cid)
      · rename_i i hi
        rw [hstore]
        exact stays_wait (t := { t with store := nullifyOps s.store did (overridden i currentOps) })
          ⟨hcid, i, hi, hcurrent, rfl⟩
    | nullified currentOps cid => exact stays_of_none (lookup_insert t id _ cid)

/-- A request that goes on alone is in turn when its operation fits. -/
theorem reachable_alone (h : Reachable deps (InTurn deps) s) {id : ℕ} {did : String} {op : Json}
    (hid : id ∉ keys s.requests) (hfits : Fits deps (getAuditLog s.store did) op) :
    Reachable deps (InTurn deps) (s.alone deps id did (some op)) := by
  have hadvance {t : Directory} (ht : Reachable deps (InTurn deps) t ∧ Stays deps s t id did op) :
      Reachable deps (InTurn deps) (t.step deps (.advance id)) ∧
        Stays deps s (t.step deps (.advance id)) id did op := by
    obtain ⟨hreach, hstays⟩ := ht
    refine ⟨hreach.step (.advance id) trivial fun r hr => ?_, stays_advance hstays⟩
    obtain ⟨phase, rfl, hsolo⟩ := hstays r hr
    exact hsolo.turn ((inv_of_reachable h).linear did) hfits
  have hpost : Stays deps s (s.step deps (.post id did (some op))) id did op := by
    cases hstruct : validateOperationStructure deps op with
    | some message =>
      rw [step_post_invalid hstruct]
      exact stays_of_none (lookup_eq_none_iff.2 hid)
    | none =>
      rw [step_post hstruct]
      exact stays_wait ⟨rfl, rfl⟩
  have hreach : Reachable deps (InTurn deps) (s.step deps (.post id did (some op))) :=
    h.step (.post id did (some op)) hid trivial
  exact (hadvance (hadvance (hadvance (hadvance ⟨hreach, hpost⟩)))).1

/-! ## An operation that is posted again -/

/-- The directory after a genesis and an update. -/
def sampleDirectory : Directory :=
  (new.alone (sampleDeps.checking sampleVerify) 0 "did:plc:a" (some sampleGenesis)).alone
    (sampleDeps.checking sampleVerify) 1 "did:plc:a" (some (sampleAfterGenesis "A" "QQ"))

theorem placed_of_opType {op : Json} {log : List LogEntry}
    (h : opType op = some "plc_operation") : Placed op log := by
  constructor <;> intro hother <;> rw [h] at hother <;> exact absurd hother (by decide)

theorem reachable_sampleDirectory : Reachable (sampleDeps.checking sampleVerify)
    (InTurn (sampleDeps.checking sampleVerify)) sampleDirectory := by
  have hgenesis : Reachable (sampleDeps.checking sampleVerify)
      (InTurn (sampleDeps.checking sampleVerify))
      (new.alone (sampleDeps.checking sampleVerify) 0 "did:plc:a" (some sampleGenesis)) :=
    reachable_alone .new (by decide) ⟨placed_of_opType (by decide), fun _ _ => List.not_mem_nil⟩
  have hnew : ((operationCid (sampleDeps.checking sampleVerify) (sampleAfterGenesis "A" "QQ")).all
      fun cid => cid ∉ (getAuditLog (new.alone (sampleDeps.checking sampleVerify) 0 "did:plc:a"
        (some sampleGenesis)).store "did:plc:a").map LogEntry.cid) = true := by
    decide +kernel
  refine reachable_alone hgenesis (by decide +kernel) ⟨placed_of_opType (by decide), ?_⟩
  intro cid hcid
  rw [Option.mem_def.1 hcid, Option.all_some, decide_eq_true_eq] at hnew
  exact hnew

theorem log_linear_sampleDirectory :
    (getAuditLog sampleDirectory.store "did:plc:a").length = 2 ∧
      ∀ did, Linear (getAuditLog sampleDirectory.store did) :=
  ⟨by decide +kernel, (log_linear reachable_sampleDirectory).1⟩

/-- The update, posted again after itself, is recovered from and put into the log twice. -/
theorem log_not_linear : ¬ ∀ (deps : HandlerDeps) (s : Directory),
    Reachable deps (fun _ _ => True) s → ∀ did, Linear (getAuditLog s.store did) := by
  intro h
  have halone {s : Directory} {id : ℕ} {body : Option Json}
      (hs : Reachable (sampleDeps.checking sampleVerify) (fun _ _ => True) s)
      (hid : id ∉ keys s.requests) : Reachable (sampleDeps.checking sampleVerify) (fun _ _ => True)
        (s.alone (sampleDeps.checking sampleVerify) id "did:plc:a" body) := by
    have hpost := hs.step (.post id "did:plc:a" body) hid trivial
    have hadvance {t : Directory}
        (ht : Reachable (sampleDeps.checking sampleVerify) (fun _ _ => True) t) :=
      ht.step (.advance id) trivial trivial
    exact hadvance (hadvance (hadvance (hadvance hpost)))
  have hagain : Reachable (sampleDeps.checking sampleVerify) (fun _ _ => True)
      (sampleDirectory.alone (sampleDeps.checking sampleVerify) 2 "did:plc:a"
        (some (sampleAfterGenesis "A" "QQ"))) :=
    halone (halone (halone .new (by decide)) (by decide +kernel)) (by decide +kernel)
  have htwice : ¬ ((getAuditLog (sampleDirectory.alone (sampleDeps.checking sampleVerify) 2
      "did:plc:a" (some (sampleAfterGenesis "A" "QQ"))).store "did:plc:a").map
        LogEntry.cid).Nodup := by
    decide +kernel
  exact htwice (h _ _ hagain "did:plc:a").nodup

end Directory

end ComputeContract.Plc
