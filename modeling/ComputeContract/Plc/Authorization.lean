import ComputeContract.Cbor.OfJson
import ComputeContract.Lib.Along
import ComputeContract.Plc.Directory

/-!
# Who may write to a log

An operation on a did with a log should be signed with a rotation key of the operation
that its `prev` names. The handler tries the rotation keys of the last current operation
instead, none if that is no `plc_operation`, and does not check a `create`.

* `run_authorized_iff`: in a run of posts, every operation is authorized exactly when what
  passes the check of the handler is also signed with the keys of `prev`.
-/

namespace ComputeContract.Plc

open AssocList

variable {deps : HandlerDeps} {store : PlcStore} {did : String} {op : Json}
  {verifySig : Json → Bytes → Bytes → Option Bool}

/-- The keys that the handler tries let the operation pass, as it tries none when the last
    current operation is no `plc_operation`. -/
def PassesCheck (deps : HandlerDeps) (verifySig : Json → Bytes → Bytes → Option Bool)
    (currentOps : List LogEntry) (op : Json) : Prop :=
  ∀ last ∈ currentOps.getLast?, opType last.operation = some "plc_operation" →
    anyKeyVerifies deps verifySig op (rotationKeys last.operation) = some true

theorem checkOperation_ne_accepted {existingOps currentOps : List LogEntry} {entry : LogEntry} :
    checkOperation deps op existingOps currentOps ≠ some (.accepted entry) := by
  have hsig : checkSignature deps op currentOps ≠ some (.accepted entry) := by
    unfold checkSignature
    split
    · split_ifs
      · split <;> simp
      · simp
    · simp
  unfold checkOperation
  split_ifs
  · split
    · simp
    · exact hsig
  · simp

theorem checkSignature_eq_none (hdeps : deps.verifySig = some verifySig) {currentOps : List LogEntry}
    (hprev : prevCid op ≠ none) :
    checkSignature deps op currentOps = none ↔ PassesCheck deps verifySig currentOps op := by
  have hnull : isNull (field op "prev") = false := by
    cases hfield : field op "prev" with
    | none => rfl
    | some v =>
      cases v with
      | null => exact absurd (by rw [prevCid, hfield]; rfl) hprev
      | _ => rfl
  unfold checkSignature PassesCheck
  rw [hdeps]
  cases currentOps.getLast? with
  | none => simp
  | some last =>
    by_cases htype : opType last.operation = some "plc_operation"
    · simp only [hnull, htype, Option.mem_some_iff, forall_eq']
      cases anyKeyVerifies deps verifySig op (rotationKeys last.operation) with
      | none => simp
      | some verified => cases verified <;> simp
    · simp [htype]

/-- What the handler does when the checks pass. -/
theorem handleCreateOp_eq {cid : String} (hstruct : validateOperationStructure deps op = none)
    (hcheck : checkOperation deps op (getAuditLog store did) (getCurrentOps store did) = none)
    (hcid : operationCid deps op = some cid) :
    handleCreateOp deps store did (some op) =
      (insertOp (nullifyOverridden store did op (getCurrentOps store did)) ⟨did, op, cid, false⟩,
        .accepted ⟨did, op, cid, false⟩) := by
  unfold handleCreateOp
  dsimp only
  rw [hstruct]
  dsimp only
  rw [hcheck]
  dsimp only
  rw [hcid]

/-- An operation is accepted when the checks pass and it has a CID. -/
theorem handleCreateOp_accepted {body : Option Json} {entry : LogEntry} :
    (handleCreateOp deps store did body).2 = .accepted entry ↔
      ∃ op, body = some op ∧ validateOperationStructure deps op = none ∧
        checkOperation deps op (getAuditLog store did) (getCurrentOps store did) = none ∧
        operationCid deps op = some entry.cid ∧ entry = ⟨did, op, entry.cid, false⟩ := by
  constructor
  · intro h
    unfold handleCreateOp at h
    split at h
    · cases h
    · rename_i op
      split at h
      · cases h
      · rename_i hstruct
        dsimp only at h
        split at h
        · rename_i response hcheck
          exact absurd (hcheck.trans (congrArg some h)) checkOperation_ne_accepted
        · rename_i hcheck
          split at h
          · cases h
          · rename_i cid hcid
            cases h
            exact ⟨op, rfl, hstruct, hcheck, hcid, rfl⟩
  · rintro ⟨op, rfl, hstruct, hcheck, hcid, hentry⟩
    rw [handleCreateOp_eq hstruct hcheck hcid, ← hentry]

/-! ## Authorization -/

/-- The operation is signed with a rotation key of the entry. -/
def SignedBy (deps : HandlerDeps) (verifySig : Json → Bytes → Bytes → Option Bool) (op : Json)
    (entry : LogEntry) : Prop :=
  opType entry.operation = some "plc_operation" ∧
    ∃ key ∈ rotationKeys entry.operation, verifyOperationSignature deps verifySig op key = some true

/-- The operation names a current entry and is signed with a key of it. -/
def SignedByPrev (deps : HandlerDeps) (verifySig : Json → Bytes → Bytes → Option Bool)
    (currentOps : List LogEntry) (op : Json) : Prop :=
  ∃ named ∈ currentOps, prevCid op = some named.cid ∧ SignedBy deps verifySig op named

/-- The last current entry is a tombstone. -/
def EndsInTombstone (currentOps : List LogEntry) (last : LogEntry) : Prop :=
  currentOps.getLast? = some last ∧ opType last.operation = some "plc_tombstone"

/-- A post, with the did that it is for. -/
structure Post where
  did : String
  body : Option Json

/-- The store after a post. -/
def handlePost (deps : HandlerDeps) (store : PlcStore) (post : Post) : PlcStore :=
  (handleCreateOp deps store post.did post.body).1

/-- A post that is accepted on a log is no `create`, is signed with a rotation key of the
    current operation that `prev` names, and nullifies a tombstone at the end. -/
def Authorized (deps : HandlerDeps) (verifySig : Json → Bytes → Bytes → Option Bool)
    (store : PlcStore) (post : Post) : Prop :=
  ∀ entry, (handleCreateOp deps store post.did post.body).2 = .accepted entry →
    getAuditLog store post.did ≠ [] →
    opType entry.operation ≠ some "create" ∧
    SignedByPrev deps verifySig (getCurrentOps store post.did) entry.operation ∧
    ∀ last, EndsInTombstone (getCurrentOps store post.did) last →
      last ∉ getCurrentOps (handlePost deps store post) post.did

/-- What passes the check of the handler on a log is no `create`, is signed with the keys
    of `prev` too, and is a `plc_operation` after a tombstone. -/
def Guarded (deps : HandlerDeps) (verifySig : Json → Bytes → Bytes → Option Bool)
    (store : PlcStore) (post : Post) : Prop :=
  let currentOps := getCurrentOps store post.did
  ∀ op ∈ post.body, validateOperationStructure deps op = none → (operationCid deps op).isSome →
    getAuditLog store post.did ≠ [] →
    opType op ≠ some "create" ∧
    ((∃ named ∈ currentOps, prevCid op = some named.cid) →
      PassesCheck deps verifySig currentOps op →
      SignedByPrev deps verifySig currentOps op ∧
      ∀ last, EndsInTombstone currentOps last → opType op = some "plc_operation")

/-- The types that an operation may have. -/
theorem opType_cases (h : validateOperationStructure deps op = none) :
    opType op = some "create" ∨ isChained op = true := by
  by_contra hne
  obtain ⟨hcreate, hchained⟩ := not_or.1 hne
  simp only [isChained, decide_eq_true_eq, not_or] at hchained
  unfold validateOperationStructure at h
  split at h
  · simp only [hchained.1, hchained.2, hcreate, if_false] at h
    cases h
  · simp only [hchained.1, hchained.2, hcreate, if_false] at h
    cases h
  · cases h

/-- `prev` is `null` before an empty log, or names a current entry. -/
theorem validatePrevChain_eq_none {log : List LogEntry} :
    validatePrevChain (field op "prev") log = none ↔
      isNull (field op "prev") = true ∧ log = [] ∨
        ∃ named ∈ current log, prevCid op = some named.cid := by
  unfold validatePrevChain
  split_ifs with hnull hempty hany
  · exact iff_of_true rfl (.inl ⟨hnull, List.isEmpty_iff.1 hempty⟩)
  · refine iff_of_false (by simp) ?_
    rintro (⟨_, hlog⟩ | ⟨named, _, hnamed⟩)
    · exact hempty (List.isEmpty_iff.2 hlog)
    · unfold prevCid at hnamed
      revert hnamed hnull
      cases field op "prev" with
      | none => simp [isNull]
      | some v => cases v <;> simp [isNull, asString]
  · refine iff_of_true rfl (.inr ?_)
    obtain ⟨named, hmem, hnamed⟩ := List.any_eq_true.1 hany
    simp only [decide_eq_true_eq] at hnamed
    exact ⟨named, List.mem_filter.2 ⟨hmem, hnamed.2⟩, hnamed.1⟩
  · refine iff_of_false (by simp) ?_
    rintro (⟨hnull', _⟩ | ⟨named, hmem, hnamed⟩)
    · exact hnull hnull'
    · refine hany (List.any_eq_true.2 ⟨named, (List.mem_filter.1 hmem).1, ?_⟩)
      exact decide_eq_true ⟨hnamed, (List.mem_filter.1 hmem).2⟩

/-- The checks, on an operation that is no `create`. -/
theorem checkOperation_eq_none (hdeps : deps.verifySig = some verifySig)
    (hchained : isChained op = true) {log : List LogEntry} (hlog : log ≠ []) :
    checkOperation deps op log (current log) = none ↔
      (∃ named ∈ current log, prevCid op = some named.cid) ∧
        PassesCheck deps verifySig (current log) op := by
  have hprev : validatePrevChain (field op "prev") log = none ↔
      ∃ named ∈ current log, prevCid op = some named.cid := by
    rw [validatePrevChain_eq_none]
    exact or_iff_right fun h => hlog h.2
  unfold checkOperation
  rw [if_pos hchained]
  cases hchain : validatePrevChain (field op "prev") log with
  | some message =>
    refine iff_of_false (by simp) fun h => ?_
    rw [hprev.2 h.1] at hchain
    cases hchain
  | none =>
    obtain ⟨named, hmem, hnamed⟩ := hprev.1 hchain
    have hne : prevCid op ≠ none := by
      rw [hnamed]
      simp
    rw [checkSignature_eq_none hdeps hne]
    exact (and_iff_right ⟨named, hmem, hnamed⟩).symm

/-- A recovery to an entry before the last one nullifies the last one. -/
theorem recoveryIndex_eq_some {init : List LogEntry} {last named : LogEntry}
    (htype : opType op = some "plc_operation") (hnamed : named ∈ init)
    (hprev : prevCid op = some named.cid) :
    ∃ i, recoveryIndex op (init ++ [last]) = some i ∧ last.cid ∈ overridden i (init ++ [last]) := by
  have hsome : (init.findIdx? fun e => prevCid op = some e.cid).isSome := by
    rw [List.findIdx?_isSome, List.any_eq_true]
    exact ⟨named, hnamed, decide_eq_true hprev⟩
  obtain ⟨i, hi⟩ := Option.isSome_iff_exists.1 hsome
  have hlt : i < init.length := (List.findIdx?_eq_some_iff_findIdx_eq.1 hi).1
  refine ⟨i, ?_, ?_⟩
  · rw [recoveryIndex, if_pos htype, List.findIdx?_append, hi]
    simp [hlt]
  · rw [overridden, List.drop_append_of_le_length hlt, List.map_append]
    exact List.mem_append_right _ (List.mem_singleton_self _)

theorem authorized_iff (hdeps : deps.verifySig = some verifySig) (store : PlcStore) (post : Post) :
    Authorized deps verifySig store post ↔ Guarded deps verifySig store post := by
  obtain ⟨did, body⟩ := post
  constructor
  · rintro h op hbody hstruct hcid hlog
    obtain rfl : body = some op := hbody
    obtain ⟨cid, hcid⟩ := Option.isSome_iff_exists.1 hcid
    have haccepted : checkOperation deps op (getAuditLog store did) (getCurrentOps store did) = none →
        (handleCreateOp deps store did (some op)).2 = .accepted ⟨did, op, cid, false⟩ := fun hcheck =>
      handleCreateOp_accepted.2 ⟨op, rfl, hstruct, hcheck, hcid, rfl⟩
    have hcreate : opType op ≠ some "create" := fun hcreate => by
      have hcheck : checkOperation deps op (getAuditLog store did) (getCurrentOps store did) =
          none := by
        unfold checkOperation
        rw [if_neg (by simp [isChained, hcreate])]
      exact (h _ (haccepted hcheck) hlog).1 hcreate
    refine ⟨hcreate, fun hnamed hpasses => ?_⟩
    have hchained := (opType_cases hstruct).resolve_left hcreate
    have hcheck : checkOperation deps op (getAuditLog store did) (getCurrentOps store did) = none :=
      (checkOperation_eq_none hdeps hchained hlog).2 ⟨hnamed, hpasses⟩
    obtain ⟨_, hsigned, htombstone⟩ := h _ (haccepted hcheck) hlog
    refine ⟨hsigned, fun last hlast => ?_⟩
    by_contra htype
    -- A tombstone does not nullify, so the last one is still there.
    refine htombstone last hlast ?_
    have hstore : handlePost deps store ⟨did, some op⟩ = insertOp store ⟨did, op, cid, false⟩ := by
      rw [handlePost, handleCreateOp_eq hstruct hcheck hcid, nullifyOverridden, recoveryIndex, if_neg htype]
    rw [hstore, getCurrentOps, getAuditLog_insertOp, if_pos rfl, current, List.filter_append]
    exact List.mem_append_left _ (List.mem_of_getLast? hlast.1)
  · rintro h entry haccepted hlog
    obtain ⟨op, rfl, hstruct, hcheck, hcid, hentry⟩ := handleCreateOp_accepted.1 haccepted
    obtain ⟨hcreate, hguard⟩ := h op rfl hstruct (by rw [hcid]; rfl) hlog
    have hchained := (opType_cases hstruct).resolve_left hcreate
    obtain ⟨hnamed, hpasses⟩ := (checkOperation_eq_none hdeps hchained hlog).1 hcheck
    obtain ⟨hsigned, htype⟩ := hguard hnamed hpasses
    have hop : entry.operation = op := by rw [hentry]
    rw [hop]
    refine ⟨hcreate, hsigned, fun last hlast hmem => ?_⟩
    obtain ⟨named, hmem', hprev, hplc, _⟩ := hsigned
    -- What `prev` names is no tombstone, so it lies before the last entry.
    obtain ⟨init, hinit⟩ : ∃ init, getCurrentOps store did = init ++ [last] :=
      List.getLast?_eq_some_iff.1 hlast.1
    have hbefore : named ∈ init := by
      rw [hinit] at hmem'
      refine (List.mem_append.1 hmem').resolve_right fun heq => ?_
      rw [List.mem_singleton.1 heq, hlast.2] at hplc
      exact absurd hplc (by decide)
    obtain ⟨i, hi, hover⟩ := recoveryIndex_eq_some (htype last hlast) hbefore hprev
    rw [← hinit] at hi hover
    have hstore : handlePost deps store ⟨did, some op⟩ =
        insertOp (nullifyOps store did (overridden i (getCurrentOps store did))) entry := by
      rw [handlePost, handleCreateOp_eq hstruct hcheck hcid, nullifyOverridden, hi, ← hentry]
    have hdid : entry.did = did := by rw [hentry]
    rw [hstore, getCurrentOps, getAuditLog_insertOp, hdid, if_pos rfl, getAuditLog_nullifyOps,
      if_pos rfl, current, List.filter_append] at hmem
    rcases List.mem_append.1 hmem with hmem | hmem
    · exact not_mem_of_mem_current hmem hover
    · have hlastEntry := List.mem_singleton.1 (List.mem_filter.1 hmem).1
      have hplc' := htype last hlast
      rw [← hop, ← hlastEntry, hlast.2] at hplc'
      exact absurd hplc' (by decide)

/-! ## Runs -/

/-- The dependencies with a verifier. -/
def HandlerDeps.checking (deps : HandlerDeps) (verifySig : Json → Bytes → Bytes → Option Bool) :
    HandlerDeps :=
  { deps with verifySig := some verifySig }

/-- In every run of posts, all that is accepted is authorized exactly when no post is a
    `create` on a log and what passes the check of the handler is signed with the keys of
    the operation that `prev` names. -/
theorem run_authorized_iff (deps : HandlerDeps) (verifySig : Json → Bytes → Bytes → Option Bool)
    (posts : List Post) :
    Along (handlePost (deps.checking verifySig)) (Authorized (deps.checking verifySig) verifySig)
        [] posts ↔
      Along (handlePost (deps.checking verifySig)) (Guarded (deps.checking verifySig) verifySig)
        [] posts :=
  along_congr (authorized_iff rfl) [] posts

/-! ## A takeover -/

/-- Signatures that are the name of their key. -/
def sampleVerify (signer : Json) (_ sig : Bytes) : Option Bool :=
  match signer with
  | .string key => some (sig = textEncode key)
  | _ => some false

def sampleDeps : HandlerDeps where
  verifySig := none
  cborEncode op := (Cbor.encodeValue op.toValue).toOption
  text _ := "value"

/-- An operation with one rotation key. -/
def sampleOperation (prev : Json) (key sig : String) : Json :=
  .object [("type", .string "plc_operation"), ("rotationKeys", .array [.string key]),
    ("prev", prev), ("sig", .string sig)]

def sampleGenesis : Json := sampleOperation .null "A" "QQ"

/-- An operation behind the first one, by its CID. -/
def sampleAfterGenesis (key sig : String) : Json :=
  sampleOperation (.string ((operationCid sampleDeps sampleGenesis).getD "")) key sig

/-- The key `A` hands over to the key `B`. -/
def samplePosts : List Post :=
  [⟨"did:plc:a", some sampleGenesis⟩, ⟨"did:plc:a", some (sampleAfterGenesis "B" "QQ")⟩]

def sampleStore : PlcStore := samplePosts.foldl (handlePost (sampleDeps.checking sampleVerify)) []

/-- The key `B` writes behind the operation of `A`, whose keys it is not among. -/
theorem run_not_authorized : ¬ ∀ (deps : HandlerDeps)
    (verifySig : Json → Bytes → Bytes → Option Bool) (posts : List Post),
    Along (handlePost (deps.checking verifySig)) (Authorized (deps.checking verifySig) verifySig)
      [] posts := by
  intro h
  obtain ⟨_, _, htakeover, _⟩ := h sampleDeps sampleVerify
    (samplePosts ++ [⟨"did:plc:a", some (sampleAfterGenesis "C" "Qg")⟩])
  change Authorized _ _ sampleStore ⟨"did:plc:a", some (sampleAfterGenesis "C" "Qg")⟩ at htakeover
  have hcheck : (checkOperation (sampleDeps.checking sampleVerify) (sampleAfterGenesis "C" "Qg")
      (getAuditLog sampleStore "did:plc:a") (getCurrentOps sampleStore "did:plc:a")).isNone = true := by
    decide +kernel
  have hcid : (operationCid (sampleDeps.checking sampleVerify)
      (sampleAfterGenesis "C" "Qg")).isSome = true := by
    decide +kernel
  obtain ⟨cid, hcid⟩ := Option.isSome_iff_exists.1 hcid
  have hlog : getAuditLog sampleStore "did:plc:a" ≠ [] := fun hnil => by
    have hlength : (getAuditLog sampleStore "did:plc:a").length = 2 := by decide +kernel
    rw [hnil] at hlength
    cases hlength
  have haccepted : (handleCreateOp (sampleDeps.checking sampleVerify) sampleStore "did:plc:a"
      (some (sampleAfterGenesis "C" "Qg"))).2 =
        .accepted ⟨"did:plc:a", sampleAfterGenesis "C" "Qg", cid, false⟩ := handleCreateOp_accepted.2
    ⟨_, rfl, by decide +kernel, Option.isNone_iff_eq_none.1 hcheck, hcid, rfl⟩
  obtain ⟨_, ⟨named, hnamed, hprev, _, key, hkey, hverified⟩, _⟩ := htakeover _ haccepted hlog
  have hnone : (getCurrentOps sampleStore "did:plc:a").all (fun named =>
      prevCid (sampleAfterGenesis "C" "Qg") ≠ some named.cid ||
        (rotationKeys named.operation).all fun key =>
          verifyOperationSignature (sampleDeps.checking sampleVerify) sampleVerify
            (sampleAfterGenesis "C" "Qg") key ≠ some true) = true := by
    decide +kernel
  have hnamed' := List.all_eq_true.1 hnone named hnamed
  rw [Bool.or_eq_true, decide_eq_true_eq] at hnamed'
  have hkey' := List.all_eq_true.1 (hnamed'.resolve_left (not_not.2 hprev)) key hkey
  exact of_decide_eq_true hkey' hverified

end ComputeContract.Plc
