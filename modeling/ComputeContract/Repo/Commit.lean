import ComputeContract.Cbor.RoundTrip
import ComputeContract.Mst.Mst
import ComputeContract.Util.Tid

/-!
# Commits

A commit names the root of the tree and the commit before it, and is signed over its
own encoding without the signature. Only the link to the tree is read back from it.
-/

namespace ComputeContract

/-- The head of a repository. -/
structure Head where
  commit : Cid
  rev : Tid
  deriving DecidableEq

/-- A commit, without its signature. -/
structure CommitData where
  did : String
  version : ℤ
  /-- The root of the tree. -/
  data : Cid
  rev : Tid
  prev : Option Cid

/-- The commit as a plain map, with CID links for `data` and `prev`. -/
def commitToObj (commit : CommitData) : List (String × Value) :=
  [("did", .text commit.did), ("version", .int commit.version), ("data", .link commit.data),
    ("rev", .text commit.rev.1)] ++ (commit.prev.map fun cid => ("prev", Value.link cid)).toList

/-- The signed commit. -/
def encodeCommit (commit : CommitData) (sig : Bytes) : Except String Bytes :=
  Cbor.encode (.object (commitToObj commit ++ [("sig", .bytes sig)]))

/-- A commit as it is read back, with no check of its fields. -/
structure DecodedCommit where
  did : Option Value
  version : Option Value
  data : Cid
  rev : Option Value
  prev : Option Cid
  sig : Option Value

/-- `""`, where a CID should be. -/
def noCid : Cid := ⟨[]⟩

/-- The CID of a link, if it is one. -/
def linkOf : Option Value → Option Cid
  | some (.link cid) => some cid
  | _ => none

def decodeCommit (bytes : Bytes) : Except String DecodedCommit := do
  let obj ← Cbor.decode bytes
  if obj.isNull then throw "Cannot read properties of null (reading 'data')"
  return {
    did := obj.get? "did"
    version := obj.get? "version"
    data := (linkOf (obj.get? "data")).getD noCid
    rev := obj.get? "rev"
    prev := linkOf (obj.get? "prev")
    sig := obj.get? "sig" }

/-- Extract the root of the tree from a signed commit block. -/
def getMstRoot (store : BlockStore) (commitCid : Cid) : Except String (Option Cid) :=
  match store.get commitCid with
  | none => .ok none
  | some bytes => do return some (← decodeCommit bytes).data

/-! ## The round trip -/

theorem plainText_tid (rev : Tid) : Cbor.plainText rev.1 := by
  obtain ⟨s, hs⟩ := rev
  simp only [isValidTid, decide_eq_true_eq, List.all_eq_true] at hs
  have hlen : s.toList.length = 13 := hs.1
  have hle := length_textEncode_le s
  simp only [Cbor.plainText, decide_eq_true_eq]
  refine ⟨by omega, fun hbom => ?_⟩
  have hmem := hs.2 _ (List.mem_of_head? hbom)
  exact absurd hmem (by decide)

/-- The fields of a stored commit. -/
def storedFields (commit : CommitData) (sig : Bytes) : List (String × Value) :=
  commitToObj commit ++ [("sig", .bytes sig)]

/-- The block of a commit, as it is written. -/
structure CommitBlock (commit : CommitData) (sig bytes : Bytes) : Prop where
  encoded : encodeCommit commit sig = .ok bytes
  did : Cbor.plainText commit.did
  version : commit.version = 3
  data : isValidCid commit.data
  prev : ∀ cid ∈ commit.prev, isValidCid cid
  sig : sig.length < 2 ^ 31

/-- The fields of a stored commit come back, sorted. -/
theorem CommitBlock.decode {commit : CommitData} {sig bytes : Bytes}
    (h : CommitBlock commit sig bytes) :
    Cbor.decode bytes = .ok (.object (Cbor.sortKeys (storedFields commit sig))) ∧
      (AssocList.keys (storedFields commit sig)).Nodup := by
  obtain ⟨hencode, hdid, hversion, hdata, hprev, hsig⟩ := h
  obtain ⟨did, version, data, rev, prev⟩ := commit
  dsimp only at hdid hversion hdata hprev ⊢
  subst hversion
  have hrev := plainText_tid rev
  have hsig : sig.length < 2147483648 := hsig
  have hlen := length_of_isValidCid hdata
  have hkeys : Cbor.plainText "did" ∧ Cbor.plainText "version" ∧ Cbor.plainText "data" ∧
      Cbor.plainText "rev" ∧ Cbor.plainText "prev" ∧ Cbor.plainText "sig" := by
    decide +kernel
  have hversion : 3 ≤ Cbor.MAX_SAFE_INTEGER ∧ Cbor.headerOk 3 := by decide
  -- The fields, as they are written and as they are read.
  have hread : ∀ fields : List (String × Value),
      storedFields ⟨did, 3, data, rev, prev⟩ sig = fields → Cbor.canonFields fields = fields →
      Cbor.plain (.object fields) → (AssocList.keys fields).Nodup →
      Cbor.decode bytes = .ok (.object (Cbor.sortKeys fields)) ∧ (AssocList.keys fields).Nodup := by
    intro fields hfields hcanon hplain hnodup
    obtain ⟨out, hout, hdec⟩ := Cbor.decode_encode hplain
    rw [storedFields] at hfields
    rw [encodeCommit, hfields] at hencode
    obtain rfl : out = bytes := Except.ok.inj (hout.symm.trans hencode)
    rw [hdec, Cbor.canon, hcanon]
    exact ⟨rfl, hnodup⟩
  cases prev with
  | none =>
    refine hread _ rfl ?_ ?_ ?_ <;>
      simp [storedFields, commitToObj, Cbor.canonFields, Cbor.canon, Cbor.plain, Cbor.plainFields,
        hversion, Cbor.linkField, List.lookup_cons, hkeys, hdid, hlen, hrev, hsig]
  | some cid =>
    have hlen' := length_of_isValidCid (hprev cid rfl)
    refine hread _ rfl ?_ ?_ ?_ <;>
      simp [storedFields, commitToObj, Cbor.canonFields, Cbor.canon, Cbor.plain, Cbor.plainFields,
        hversion, Cbor.linkField, List.lookup_cons, hkeys, hdid, hlen, hlen', hrev, hsig]

/-- The links of a stored commit come back. -/
theorem CommitBlock.decodeCommit {commit : CommitData} {sig bytes : Bytes}
    (h : CommitBlock commit sig bytes) : ∃ decoded, decodeCommit bytes = .ok decoded ∧
      decoded.data = commit.data ∧ decoded.prev = commit.prev := by
  obtain ⟨hdecode, hnodup⟩ := h.decode
  generalize hfields : Cbor.sortKeys (storedFields commit sig) = fields at hdecode
  have hget (name : String) : (Value.object fields).get? name =
      (storedFields commit sig).lookup name := by
    rw [Value.get?, ← hfields, Cbor.lookup_sortKeys hnodup]
  have hdecoded : ComputeContract.decodeCommit bytes = .ok ⟨(Value.object fields).get? "did",
      (Value.object fields).get? "version", (linkOf ((Value.object fields).get? "data")).getD noCid,
      (Value.object fields).get? "rev", linkOf ((Value.object fields).get? "prev"),
      (Value.object fields).get? "sig"⟩ := by
    rw [ComputeContract.decodeCommit, hdecode]
    rfl
  refine ⟨_, hdecoded, ?_, ?_⟩
  · dsimp only
    rw [hget]
    rfl
  · dsimp only
    rw [hget]
    obtain ⟨did, version, data, rev, prev⟩ := commit
    cases prev <;> rfl

end ComputeContract
