import ComputeContract.Lib.AssocList
import ComputeContract.Util.Base64
import ComputeContract.Util.Cid
import ComputeContract.Util.Json

/-!
# The directory of did:plc

The operations that are posted for a did and the log that they make. An operation is
the JSON value of the body; `handleCreateOp` is its handler when nothing comes in between.
-/

namespace ComputeContract.Plc

open AssocList

/-- What the handlers are given, and the platform: `cborEncode` and the verifier throw
    where they give `none`. What `cborEncode` gives fills its buffer (`Plc/Genesis.lean` has
    views of any buffer). -/
structure HandlerDeps where
  verifySig : Option (Json → Bytes → Bytes → Option Bool)
  cborEncode : Json → Option Bytes
  /-- A value in a template. -/
  text : Option Json → String

structure LogEntry where
  did : String
  operation : Json
  cid : String
  nullified : Bool

inductive Response
  | accepted (entry : LogEntry)
  | refused (message : String)
  /-- The handler throws. -/
  | failed

/-! ## Operations -/

/-- `op.name`; no prototype has one of the names that are asked for. -/
def field (op : Json) (name : String) : Option Json :=
  match op with
  | .object fields => fields.lookup name
  | _ => none

def asString : Option Json → Option String
  | some (.string s) => some s
  | _ => none

/-- The type of an operation. -/
def opType (op : Json) : Option String := asString (field op "type")

/-- The CID that `prev` is. -/
def prevCid (op : Json) : Option String := asString (field op "prev")

def isNull : Option Json → Bool
  | some .null => true
  | _ => false

def isArray : Option Json → Bool
  | some (.array _) => true
  | _ => false

/-- `typeof v === "object"` -/
def isObject : Option Json → Bool
  | some .null | some (.array _) | some (.object _) => true
  | _ => false

def isString (v : Option Json) : Bool := (asString v).isSome

/-- The first of the checks that fails. -/
def firstFailing : List (Bool × String) → Option String
  | [] => none
  | (ok, message) :: checks => if ok then firstFailing checks else some message

def validateOperationStructure (deps : HandlerDeps) (op : Json) : Option String :=
  match op with
  | .array _ | .object _ =>
    let o := field op
    if opType op = some "plc_operation" then firstFailing [
      (isArray (o "rotationKeys"), "rotationKeys must be an array"),
      ((o "verificationMethods").isNone || isObject (o "verificationMethods"),
        "verificationMethods must be an object"),
      ((o "alsoKnownAs").isNone || isArray (o "alsoKnownAs"), "alsoKnownAs must be an array"),
      ((o "services").isNone || isObject (o "services"), "services must be an object"),
      (isString (o "sig"), "sig must be a string"),
      (isNull (o "prev") || (o "prev").isNone || isString (o "prev"),
        "prev must be null or a CID string")]
    else if opType op = some "plc_tombstone" then firstFailing [
      (isString (o "prev"), "prev must be a CID string"),
      (isString (o "sig"), "sig must be a string")]
    else if opType op = some "create" then firstFailing [
      (isString (o "signingKey"), "signingKey must be a string"),
      (isString (o "recoveryKey"), "recoveryKey must be a string"),
      (isString (o "handle"), "handle must be a string"),
      (isString (o "service"), "service must be a string"),
      (isString (o "sig"), "sig must be a string")]
    else some ("Unknown operation type: " ++ deps.text (o "type"))
  | _ => some "Operation must be an object"

def rotationKeys (op : Json) : List Json :=
  match field op "rotationKeys" with
  | some (.array keys) => keys
  | _ => []

def fromBase64url (s : String) : Option Bytes :=
  atob (padBase64 (s.toList.map fun c => if c = '-' then '+' else if c = '_' then '/' else c))

/-- The operation without its signature. -/
def unsigned (op : Json) : Json :=
  match op with
  | .object fields => .object (erase "sig" fields)
  | op => op

def verifyOperationSignature (deps : HandlerDeps) (verifySig : Json → Bytes → Bytes → Option Bool)
    (op signer : Json) : Option Bool := do
  let unsignedBytes ← deps.cborEncode (unsigned op)
  let sigBytes ← fromBase64url ((asString (field op "sig")).getD "")
  verifySig signer unsignedBytes sigBytes

/-- The loop over the rotation keys, up to one that verifies. -/
def anyKeyVerifies (deps : HandlerDeps) (verifySig : Json → Bytes → Bytes → Option Bool) (op : Json) :
    List Json → Option Bool
  | [] => some false
  | key :: keys =>
    match verifyOperationSignature deps verifySig op key with
    | none => none
    | some true => some true
    | some false => anyKeyVerifies deps verifySig op keys

def computeOperationCid (signedBytes : Bytes) : String := (cidForBytes signedBytes).toString

/-- The CID of an operation, as it was posted. -/
def operationCid (deps : HandlerDeps) (op : Json) : Option String :=
  (deps.cborEncode op).map computeOperationCid

/-! ## The store -/

abbrev PlcStore := List (String × List LogEntry)

def getAuditLog (store : PlcStore) (did : String) : List LogEntry := (store.lookup did).getD []

/-- The entries that are not nullified. -/
def current (log : List LogEntry) : List LogEntry := log.filter fun e => !e.nullified

def getCurrentOps (store : PlcStore) (did : String) : List LogEntry := current (getAuditLog store did)

def insertOp (store : PlcStore) (entry : LogEntry) : PlcStore :=
  set entry.did (getAuditLog store entry.did ++ [entry]) store

/-- An entry after `nullifyOps` of the CIDs. -/
def LogEntry.nullify (cids : List String) (e : LogEntry) : LogEntry :=
  if e.cid ∈ cids then { e with nullified := true } else e

def nullifyOps (store : PlcStore) (did : String) (cids : List String) : PlcStore :=
  match store.lookup did with
  | none => store
  | some ops => set did (ops.map (LogEntry.nullify cids)) store

/-! ## The handler -/

def validatePrevChain (prev : Option Json) (existingOps : List LogEntry) : Option String :=
  if isNull prev then
    if existingOps.isEmpty then none else some "Genesis operation requires empty log"
  else if existingOps.any fun e => asString prev = some e.cid ∧ !e.nullified then none
  else some ("prev CID not found in current chain: " ++ (asString prev).getD "undefined")

/-- The operation is checked against the log. -/
def isChained (op : Json) : Bool :=
  opType op = some "plc_operation" ∨ opType op = some "plc_tombstone"

/-- The signature check, under the keys of the last current operation. -/
def checkSignature (deps : HandlerDeps) (op : Json) (currentOps : List LogEntry) :
    Option Response :=
  match deps.verifySig, currentOps.getLast? with
  | some verifySig, some prevOp =>
    if !isNull (field op "prev") ∧ opType prevOp.operation = some "plc_operation" then
      match anyKeyVerifies deps verifySig op (rotationKeys prevOp.operation) with
      | none => some .failed
      | some true => none
      | some false => some (.refused "Invalid Signature")
    else none
  | _, _ => none

/-- The checks against the log, with what they answer when one fails. -/
def checkOperation (deps : HandlerDeps) (op : Json) (existingOps currentOps : List LogEntry) :
    Option Response :=
  if isChained op then
    match validatePrevChain (field op "prev") existingOps with
    | some message => some (.refused message)
    | none => checkSignature deps op currentOps
  else none

/-- The place of `prev` among the current operations, where those behind it are to be
    nullified. -/
def recoveryIndex (op : Json) (currentOps : List LogEntry) : Option ℕ :=
  if opType op = some "plc_operation" then
    (currentOps.findIdx? fun e => prevCid op = some e.cid).filter fun i => i < currentOps.length - 1
  else none

/-- The CIDs that a recovery nullifies. -/
def overridden (i : ℕ) (currentOps : List LogEntry) : List String :=
  (currentOps.drop (i + 1)).map LogEntry.cid

/-- Before a recovery is inserted, what it overrides is nullified. -/
def nullifyOverridden (store : PlcStore) (did : String) (op : Json) (currentOps : List LogEntry) :
    PlcStore :=
  match recoveryIndex op currentOps with
  | some i => nullifyOps store did (overridden i currentOps)
  | none => store

def handleCreateOp (deps : HandlerDeps) (store : PlcStore) (did : String) (body : Option Json) :
    PlcStore × Response :=
  match body with
  | none => (store, .refused "Invalid JSON body")
  | some op =>
    match validateOperationStructure deps op with
    | some message => (store, .refused message)
    | none =>
      let currentOps := getCurrentOps store did
      match checkOperation deps op (getAuditLog store did) currentOps with
      | some response => (store, response)
      | none =>
        match operationCid deps op with
        | none => (store, .refused "Failed to compute operation CID")
        | some cid =>
          let entry := ⟨did, op, cid, false⟩
          (insertOp (nullifyOverridden store did op currentOps) entry, .accepted entry)

/-! ## What is stored -/

@[simp] theorem cid_nullify (cids : List String) (e : LogEntry) : (e.nullify cids).cid = e.cid := by
  unfold LogEntry.nullify
  split_ifs <;> rfl

theorem getAuditLog_insertOp (store : PlcStore) (entry : LogEntry) (did : String) :
    getAuditLog (insertOp store entry) did =
      if did = entry.did then getAuditLog store did ++ [entry] else getAuditLog store did := by
  unfold getAuditLog insertOp
  rw [lookup_set]
  split_ifs with h
  · rw [h]
    rfl
  · rfl

theorem getAuditLog_nullifyOps (store : PlcStore) (did did' : String) (cids : List String) :
    getAuditLog (nullifyOps store did cids) did' =
      if did' = did then (getAuditLog store did').map (LogEntry.nullify cids)
      else getAuditLog store did' := by
  unfold getAuditLog nullifyOps
  cases h : store.lookup did with
  | none =>
    split_ifs with hdid
    · rw [hdid, h]
      rfl
    · rfl
  | some ops =>
    rw [lookup_set]
    split_ifs with hdid
    · rw [hdid, h]
      rfl
    · rfl

/-- An entry that is current after a nullification is not one of those CIDs. -/
theorem not_mem_of_mem_current {cids : List String} {log : List LogEntry} {e : LogEntry}
    (h : e ∈ current (log.map (LogEntry.nullify cids))) : e.cid ∉ cids := by
  obtain ⟨hmem, hcurrent⟩ := List.mem_filter.1 h
  obtain ⟨e', _, rfl⟩ := List.mem_map.1 hmem
  rw [cid_nullify]
  intro hcid
  unfold LogEntry.nullify at hcurrent
  rw [if_pos hcid] at hcurrent
  cases hcurrent

end ComputeContract.Plc
