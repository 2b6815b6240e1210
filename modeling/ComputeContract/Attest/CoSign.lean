import ComputeContract.Attest.Verify

/-!
# Co-signing

A record is signed by several signers, one after the other. `signAndAppend` puts the entry of
the signer in the place of the first one of its key, or last; `createSignedRecord` of the
market library puts it last. The other entries stay as they are, and since none of them is
signed, the entries made before still verify.

* `run_others`: the entries of other keys stay;
* `run_count`, `run_first`: what a signer that only uses `signAndAppend` leaves;
* `cosigned`: what a run of signers leaves.
-/

namespace ComputeContract.Attest

open AssocList

/-! ## Entries by key -/

/-- An inline entry of a key. -/
def ownKey (key : String) : Value → Bool
  | .object entry =>
    !isText STRONG_REF_NSID (entry.lookup "$type") && isText key (entry.lookup "key")
  | _ => false

/-- Without an agent, the own entries are those of the key. -/
theorem isOwn_eq_ownKey {a : Attestation} (h : a.agent = none) : a.isOwn = ownKey a.publicKey := by
  funext raw
  cases raw with
  | object entry =>
    by_cases ht : isText STRONG_REF_NSID (entry.lookup "$type")
    · simp only [Attestation.isOwn, ownKey, h, ht, if_true, Bool.not_true, Bool.false_and]
      split
      · next hagent => cases hagent
      · rfl
    · simp only [Attestation.isOwn, ownKey, ht, if_false, Bool.not_false, Bool.true_and,
        Bool.false_eq_true]
  | _ => rfl

/-- An entry has one key. -/
theorem ownKey_eq {key key' : String} {raw : Value} (h : ownKey key raw) (h' : ownKey key' raw) :
    key = key' := by
  cases raw with
  | object entry =>
    simp only [ownKey, Bool.and_eq_true] at h h'
    rcases hk : entry.lookup "key" with _ | v
    · rw [hk] at h
      cases h.2
    · rw [hk] at h h'
      cases v with
      | text t => exact (of_decide_eq_true h.2).symm.trans (of_decide_eq_true h'.2)
      | _ => cases h.2
  | _ => cases h

/-! ## Steps -/

/-- A signer of inline entries, with the public half of its key. -/
structure InlineSigner (P : Primitives) extends Attestation where
  agent_none : agent = none
  key_own : derivePublicDidKey P privateKey = .ok publicKey

/-- A step of co-signing. -/
inductive CoSign (P : Primitives)
  | signAndAppend (signer : InlineSigner P) (signatureType : Option String)
      (metadata : Option RecordMap) (fields : Option (List String))
  | createSignedRecord (signer : InlineSigner P)

namespace CoSign

section
variable {P : Primitives}

def signer : CoSign P → InlineSigner P
  | signAndAppend signer _ _ _ => signer
  | createSignedRecord signer => signer

def key (step : CoSign P) : String := step.signer.publicKey

def type : CoSign P → String
  | signAndAppend signer signatureType _ _ => signatureType.getD signer.signatureType
  | createSignedRecord signer => signer.signatureType

def metadata : CoSign P → RecordMap
  | signAndAppend _ _ metadata _ => metadata.getD []
  | createSignedRecord _ => []

def fields : CoSign P → Option (List String)
  | signAndAppend _ _ _ fields => fields
  | createSignedRecord _ => none

/-- Whether the step replaces the entry of its signer. -/
def replaces : CoSign P → Bool
  | signAndAppend .. => true
  | createSignedRecord _ => false

/-- The record after the step. -/
def run (repository : String) (record : RecordMap) : CoSign P → Except String RecordMap
  | signAndAppend signer signatureType metadata fields =>
    signer.signAndAppend P record repository signatureType metadata fields
  | createSignedRecord signer => Attest.createSignedRecord P signer.toAttestation record repository

/-- Where the step puts its entry. -/
def put (step : CoSign P) (prior : List Value) (entry : Value) : List Value :=
  if step.replaces then step.signer.place prior entry else prior ++ [entry]

end

end CoSign

/-- The keys that an inline entry sets itself. -/
def reservedKeys : List String := ["$type", "key", "cid", "signature"]

/-- The metadata uses no reserved key, the entry is not taken for a reference, and the fields
    are those that are verified. -/
structure CoSign.Admissible {P : Primitives} (fields : Option (List String)) (step : CoSign P) :
    Prop where
  reserved : ∀ key ∈ reservedKeys, key ∉ keys step.metadata
  type : step.type ≠ STRONG_REF_NSID
  fields : step.fields = fields

/-! ## Where an entry is put -/

section
variable {P : Primitives} {step : CoSign P} {prior : List Value} {entry : Value}

/-- The first own entry is replaced, or there is none. -/
theorem put_cases (step : CoSign P) (prior : List Value) (entry : Value) :
    (∃ before old after, step.replaces ∧ prior = before ++ old :: after ∧ ownKey step.key old ∧
      (∀ raw ∈ before, ownKey step.key raw = false) ∧
      step.put prior entry = before ++ entry :: after) ∨
    (step.replaces → ∀ raw ∈ prior, ownKey step.key raw = false) ∧
      step.put prior entry = prior ++ [entry] := by
  by_cases hr : step.replaces
  · unfold CoSign.put Attestation.place
    rw [if_pos hr, isOwn_eq_ownKey step.signer.agent_none]
    rcases hidx : prior.findIdx? (ownKey step.signer.publicKey) with _ | i
    · refine .inr ⟨fun _ raw hraw => ?_, rfl⟩
      exact List.findIdx?_eq_none_iff.1 hidx raw hraw
    · obtain ⟨hi, hown, hbefore⟩ := List.findIdx?_eq_some_iff_getElem.1 hidx
      refine .inl ⟨prior.take i, prior[i], prior.drop (i + 1), hr, ?_, hown, ?_, ?_⟩
      · rw [List.getElem_cons_drop, List.take_append_drop]
      · intro raw hraw
        obtain ⟨j, hj, rfl⟩ := List.getElem_of_mem hraw
        rw [List.length_take] at hj
        rw [List.getElem_take]
        exact Bool.not_eq_true _ ▸ hbefore j (by omega)
      · exact List.set_eq_take_append_cons_drop.trans (if_pos hi)
  · unfold CoSign.put
    rw [if_neg hr]
    exact .inr ⟨fun h => absurd h hr, rfl⟩

theorem mem_put {raw : Value} (h : raw ∈ step.put prior entry) : raw = entry ∨ raw ∈ prior := by
  rcases put_cases step prior entry with ⟨before, old, after, -, hprior, -, -, hput⟩ | ⟨-, hput⟩
  · rw [hput, List.mem_append, List.mem_cons] at h
    rw [hprior, List.mem_append, List.mem_cons]
    rcases h with h | h | h
    · exact .inr (.inl h)
    · exact .inl h
    · exact .inr (.inr (.inr h))
  · rw [hput, List.mem_append, List.mem_singleton] at h
    exact h.symm

theorem entry_mem_put : entry ∈ step.put prior entry := by
  rcases put_cases step prior entry with ⟨before, old, after, -, -, -, -, hput⟩ | ⟨-, hput⟩ <;>
    simp [hput]

/-- What is not of the key of the step stays. -/
theorem mem_put_of_mem {raw : Value} (h : raw ∈ prior) (hraw : ownKey step.key raw = false) :
    raw ∈ step.put prior entry := by
  rcases put_cases step prior entry with ⟨before, old, after, -, hprior, hold, -, hput⟩ | ⟨-, hput⟩
  · rw [hprior, List.mem_append, List.mem_cons] at h
    rw [hput, List.mem_append, List.mem_cons]
    rcases h with h | rfl | h
    · exact .inl h
    · rw [hold] at hraw
      cases hraw
    · exact .inr (.inr h)
  · rw [hput]
    exact List.mem_append_left _ h

/-- The entries that `p` selects stay, in order, when it selects none of the key of the step. -/
theorem filter_put {p : Value → Bool} (hp : ∀ raw, ownKey step.key raw → p raw = false)
    (hentry : ownKey step.key entry) : (step.put prior entry).filter p = prior.filter p := by
  rcases put_cases step prior entry with ⟨before, old, after, -, hprior, hold, -, hput⟩ | ⟨-, hput⟩
  · rw [hput]
    simp [hprior, hp entry hentry, hp old hold]
  · simp [hput, hp entry hentry]

/-- A replacing step leaves the entries of its key in number, but for the first one. -/
theorem countP_put (hr : step.replaces) (hentry : ownKey step.key entry) :
    (step.put prior entry).countP (ownKey step.key) =
      max 1 (prior.countP (ownKey step.key)) := by
  rcases put_cases step prior entry with ⟨before, old, after, -, hprior, hold, -, hput⟩ | ⟨hnone, hput⟩
  · rw [hput]
    simp only [hprior, List.countP_append, List.countP_cons_of_pos hentry,
      List.countP_cons_of_pos hold]
    omega
  · have hzero : prior.countP (ownKey step.key) = 0 := List.countP_eq_zero.2 fun raw hraw => by
      simp [hnone hr raw hraw]
    simp [hput, hzero, hentry]

theorem find?_put (hr : step.replaces) (hentry : ownKey step.key entry) :
    (step.put prior entry).find? (ownKey step.key) = some entry := by
  rcases put_cases step prior entry with ⟨before, old, after, -, -, -, hbefore, hput⟩ | ⟨hnone, hput⟩
  · have h : before.find? (ownKey step.key) = none := List.find?_eq_none.2 fun raw hraw => by
      simp [hbefore raw hraw]
    rw [hput, List.find?_append, h, List.find?_cons_of_pos hentry, Option.none_or]
  · have h : prior.find? (ownKey step.key) = none := List.find?_eq_none.2 fun raw hraw => by
      simp [hnone hr raw hraw]
    rw [hput, List.find?_append, h, List.find?_cons_of_pos hentry, Option.none_or]

end

/-! ## A step -/

section
variable {P : Primitives} {keyResolver : String → Except String KeyData}

/-- The attributes of an entry are named by the metadata, or `issuer`, `issuedAt`, `role`. -/
theorem not_mem_keys_attributes {a : Attestation} {metadata : Option RecordMap} {key : String}
    (h : key ∉ keys (metadata.getD [])) (hkey : key ∈ reservedKeys) :
    key ∉ keys (a.attributes metadata) := by
  rw [Attestation.attributes, keys_append, List.mem_append, not_or]
  constructor
  · intro hmem
    simp only [keys, List.mem_map, List.mem_filterMap, List.mem_cons, List.not_mem_nil, or_false,
      Option.map_eq_some_iff] at hmem
    obtain ⟨e, ⟨e', he', v, -, rfl⟩, rfl⟩ := hmem
    have hname : e'.1 ∈ ["issuer", "issuedAt", "role"] := by
      rcases he' with rfl | rfl | rfl <;> simp
    have hnot : ∀ name ∈ ["issuer", "issuedAt", "role"], name ∉ reservedKeys := by decide
    exact hnot _ hname hkey
  · intro hmem
    obtain ⟨e, he, rfl⟩ := List.mem_map.1 hmem
    exact h (mem_keys_of_mem (List.mem_of_mem_filter he))

/-- The inline entry of a signature is one. -/
theorem isEntry_inlineEntry {a : Attestation} {type : String} {metadata : Option RecordMap}
    (hreserved : ∀ key ∈ reservedKeys, key ∉ keys (metadata.getD []))
    (htype : type ≠ STRONG_REF_NSID) (repository : String) (cid : Cid) (sig : Bytes) :
    IsEntry P a (a.inlineMetadata type metadata) repository cid sig
      (a.inlineEntry type metadata cid sig) := by
  have hkeys : ∀ key ∈ reservedKeys, key ∉ keys (a.attributes metadata) := fun key hkey =>
    not_mem_keys_attributes (hreserved key hkey) hkey
  have hentry : ∀ key ∈ reservedKeys, (a.inlineEntry type metadata cid sig).lookup key =
      List.lookup key [("$type", Value.text type), ("key", .text a.publicKey),
        ("cid", .text cid.toString), ("signature", .bytes sig)] := fun key hkey =>
    lookup_setAll_of_not_mem (hkeys key hkey) _
  have hmeta : (a.inlineMetadata type metadata).lookup "$type" = some (.text type) :=
    lookup_setAll_of_not_mem (hkeys "$type" (by decide)) _
  have hentryType := hentry "$type" (by decide)
  have hsignature := hentry "signature" (by decide)
  refine ⟨?_, ?_, hentry "key" (by decide), hentry "cid" (by decide), ?_, ?_, ?_⟩
  · rw [typeOf, typeOf, hentryType, hmeta]
    rfl
  · rw [typeOf, hmeta]
    simp only
    split_ifs
    · intro h
      cases h
    · exact fun h => htype (Option.some.inj h)
  · rw [entrySignature, hsignature]
    rfl
  · rw [hsignature]
    rfl
  · rw [prepareMetadata, prepareMetadata, Attestation.inlineEntry, Attestation.inlineMetadata,
      erase_setAll (hkeys "cid" (by decide)), erase_setAll (hkeys "cid" (by decide)),
      erase_setAll (hkeys "signature" (by decide)), erase_setAll (hkeys "signature" (by decide))]
    rfl

/-- The form that is stored is an entry too. -/
theorem isEntry_set_bytes {a : Attestation} {metadata entry : RecordMap} {repository : String}
    {cid : Cid} {sig : Bytes} (h : IsEntry P a metadata repository cid sig entry) :
    IsEntry P a metadata repository cid sig
      (set "signature" (.object [("$bytes", .text (bytesToBase64 sig))]) entry) := by
  have hother : ∀ key, key ≠ "signature" →
      (set "signature" (.object [("$bytes", .text (bytesToBase64 sig))]) entry).lookup key =
        entry.lookup key := fun key hkey => by
    rw [lookup_set, if_neg hkey]
  have hsignature : (set "signature" (.object [("$bytes", .text (bytesToBase64 sig))])
      entry).lookup "signature" = some (.object [("$bytes", .text (bytesToBase64 sig))]) := by
    rw [lookup_set, if_pos rfl]
  refine ⟨?_, h.not_ref, ?_, ?_, ?_, ?_, ?_⟩
  · rw [← h.type, typeOf, hother _ (by decide)]
    rfl
  · rw [hother _ (by decide), h.key]
  · rw [hother _ (by decide), h.cid]
  · rw [entrySignature, hsignature]
    exact base64ToBytes_bytesToBase64 sig
  · rw [hsignature]
    change (base64ToBytes (bytesToBase64 sig) >>= fun bytes => .ok (some bytes)) = _
    rw [base64ToBytes_bytesToBase64]
    rfl
  · rw [← h.prepared, prepareMetadata, erase_set_of_ne (by decide), erase_set_self]
    rfl

theorem ownKey_of_isEntry {a : Attestation} {metadata entry : RecordMap} {repository : String}
    {cid : Cid} {sig : Bytes} (h : IsEntry P a metadata repository cid sig entry) :
    ownKey a.publicKey (.object entry) := by
  have hnot : isText STRONG_REF_NSID (entry.lookup "$type") = false := by
    by_contra hyes
    rw [Bool.not_eq_false] at hyes
    have htype : typeOf entry = some STRONG_REF_NSID := by
      rcases hv : entry.lookup "$type" with _ | v
      · rw [hv] at hyes
        cases hyes
      · rw [hv] at hyes
        cases v with
        | text t =>
          obtain rfl := of_decide_eq_true hyes
          rw [typeOf, hv]
          rfl
        | _ => cases hyes
    exact h.not_ref (h.type ▸ htype)
  have hkey : isText a.publicKey (some (.text a.publicKey)) := decide_eq_true rfl
  rw [ownKey, hnot, h.key, hkey]
  rfl

/-- A step puts an entry of its signer that verifies into the record, which is the same but for
    `signatures`. -/
theorem run_eq_ok (hP : P.Lawful)
    (hresolve : ∀ did key, parseDidKey P did = .ok key → keyResolver did = .ok key)
    {step : CoSign P} {fields : Option (List String)} (hstep : step.Admissible fields)
    {repository : String} {record record' : RecordMap}
    (h : step.run repository record = .ok record') :
    ∃ entry, Verifies P keyResolver record repository fields entry ∧ ownKey step.key entry ∧
      record' = set "signatures" (.array (step.put (signaturesOf record) entry)) record := by
  obtain ⟨hreserved, htype, hfields⟩ := hstep
  cases step with
  | signAndAppend signer signatureType metadata fields' =>
    obtain rfl : fields' = fields := hfields
    obtain ⟨entry, hsign, h⟩ := bind_eq_ok.1 h
    rw [Attestation.sign, signer.agent_none] at hsign
    obtain ⟨cid, hcid, hsign⟩ := bind_eq_ok.1 hsign
    obtain ⟨sig, hsig, hsign⟩ := bind_eq_ok.1 hsign
    obtain rfl := Except.ok.inj hsign
    have hentry : IsEntry P signer.toAttestation
        (signer.inlineMetadata (signatureType.getD signer.signatureType) metadata) repository cid
        sig (signer.inlineEntry (signatureType.getD signer.signatureType) metadata cid sig) :=
      isEntry_inlineEntry hreserved htype repository cid sig
    exact ⟨_, verifies_of_isEntry hP hresolve signer.key_own hcid hsig hentry,
      ownKey_of_isEntry hentry, (Except.ok.inj h).symm⟩
  | createSignedRecord signer =>
    obtain rfl : none = fields := hfields
    obtain ⟨entry, hsign, h⟩ := bind_eq_ok.1 h
    rw [Attestation.sign, signer.agent_none] at hsign
    obtain ⟨cid, hcid, hsign⟩ := bind_eq_ok.1 hsign
    obtain ⟨sig, hsig, hsign⟩ := bind_eq_ok.1 hsign
    obtain rfl := Except.ok.inj hsign
    have hnone : ∀ key ∈ reservedKeys, key ∉ keys ((none : Option RecordMap).getD []) :=
      fun _ _ => List.not_mem_nil
    have hentry : IsEntry P signer.toAttestation
        (signer.inlineMetadata (none.getD signer.signatureType) none) repository cid sig
        (signer.inlineEntry (none.getD signer.signatureType) none cid sig) :=
      isEntry_inlineEntry hnone htype repository cid sig
    obtain ⟨stored, hstored, h⟩ := bind_eq_ok.1 h
    rw [toStorableEntry, hentry.market] at hstored
    obtain rfl := Except.ok.inj hstored
    have hentry' := isEntry_set_bytes hentry
    exact ⟨_, verifies_of_isEntry hP hresolve signer.key_own hcid hsig hentry',
      ownKey_of_isEntry hentry', (Except.ok.inj h).symm⟩

end

/-! ## A run -/

/-- The record after the steps. -/
def cosign {P : Primitives} (repository : String) (steps : List (CoSign P)) (record : RecordMap) :
    Except String RecordMap :=
  steps.foldlM (CoSign.run repository) record

@[simp] theorem signaturesOf_set (entries : List Value) (record : RecordMap) :
    signaturesOf (set "signatures" (.array entries) record) = entries := by
  rw [signaturesOf, lookup_set, if_pos rfl]

section
variable {P : Primitives} {keyResolver : String → Except String KeyData}
  {fields : Option (List String)} {steps : List (CoSign P)} {repository : String}
  {record record' : RecordMap}

/-- Induction over a run: from the entry that the first step puts into the record. -/
theorem cosign_induction {motive : List (CoSign P) → RecordMap → Prop} (hP : P.Lawful)
    (hresolve : ∀ did key, parseDidKey P did = .ok key → keyResolver did = .ok key)
    (hsteps : ∀ step ∈ steps, step.Admissible fields)
    (h : cosign repository steps record = .ok record') (nil : motive [] record')
    (cons : ∀ step steps record entry,
      Verifies P keyResolver record repository fields entry → ownKey step.key entry →
      motive steps (set "signatures" (.array (step.put (signaturesOf record) entry)) record) →
      motive (step :: steps) record) : motive steps record := by
  induction steps generalizing record with
  | nil =>
    obtain rfl := Except.ok.inj h
    exact nil
  | cons step steps ih =>
    rw [cosign, List.foldlM_cons] at h
    obtain ⟨next, hnext, h⟩ := bind_eq_ok.1 h
    obtain ⟨entry, hentry, hown, rfl⟩ :=
      run_eq_ok hP hresolve (hsteps step List.mem_cons_self) hnext
    exact cons step steps record entry hentry hown
      (ih (fun step' hstep' => hsteps step' (List.mem_cons_of_mem _ hstep')) h)

variable (hP : P.Lawful)
  (hresolve : ∀ did key, parseDidKey P did = .ok key → keyResolver did = .ok key)
  (hsteps : ∀ step ∈ steps, step.Admissible fields)
  (h : cosign repository steps record = .ok record')

include hP hresolve hsteps h

/-- What is signed does not change in a run. -/
theorem verifies_run {raw : Value} : Verifies P keyResolver record' repository fields raw ↔
    Verifies P keyResolver record repository fields raw := by
  refine cosign_induction (motive := fun _ r => Verifies P keyResolver record' repository fields
    raw ↔ Verifies P keyResolver r repository fields raw) hP hresolve hsteps h Iff.rfl ?_
  intro step steps r entry _ _ ih
  rw [ih, verifies_set_signatures]

/-- An entry was there before the run, or it verifies. -/
theorem run_entries : ∀ raw ∈ signaturesOf record', raw ∈ signaturesOf record ∨
    Verifies P keyResolver record repository fields raw := by
  refine cosign_induction (motive := fun _ r => ∀ raw ∈ signaturesOf record',
    raw ∈ signaturesOf r ∨ Verifies P keyResolver r repository fields raw) hP hresolve hsteps h
    (fun _ hraw => .inl hraw) ?_
  intro step steps r entry hentry _ ih raw hraw
  rcases ih raw hraw with hmem | hverifies
  · rw [signaturesOf_set] at hmem
    rcases mem_put hmem with rfl | hmem
    · exact .inr hentry
    · exact .inl hmem
  · exact .inr ((verifies_set_signatures _).1 hverifies)

/-- What no signer of the run has signed stays as it is, in order. -/
theorem run_others {p : Value → Bool}
    (hp : ∀ step ∈ steps, ∀ raw, ownKey step.key raw → p raw = false) :
    (signaturesOf record').filter p = (signaturesOf record).filter p := by
  refine cosign_induction (motive := fun steps r =>
    (∀ step ∈ steps, ∀ raw, ownKey step.key raw → p raw = false) →
      (signaturesOf record').filter p = (signaturesOf r).filter p) hP hresolve hsteps h
    (fun _ => rfl) ?_ hp
  intro step steps r entry _ hown ih hp
  rw [ih fun step' hstep' => hp step' (List.mem_cons_of_mem _ hstep'), signaturesOf_set]
  exact filter_put (hp step List.mem_cons_self) hown

/-- Every signer of the run has an entry that verifies. -/
theorem run_signers {key : String}
    (hkey : (∃ raw ∈ signaturesOf record, ownKey key raw ∧
        Verifies P keyResolver record repository fields raw) ∨ ∃ step ∈ steps, step.key = key) :
    ∃ raw ∈ signaturesOf record', ownKey key raw ∧
      Verifies P keyResolver record repository fields raw := by
  refine cosign_induction (motive := fun steps r => (∃ raw ∈ signaturesOf r, ownKey key raw ∧
      Verifies P keyResolver r repository fields raw) ∨ (∃ step ∈ steps, step.key = key) →
    ∃ raw ∈ signaturesOf record', ownKey key raw ∧
      Verifies P keyResolver r repository fields raw) hP hresolve hsteps h ?_ ?_ hkey
  · rintro (hmem | ⟨step, hstep, -⟩)
    · exact hmem
    · cases hstep
  · intro step steps r entry hentry hown ih hkey
    simp only [signaturesOf_set, verifies_set_signatures] at ih
    rcases hkey with ⟨raw, hmem, hraw, hverifies⟩ | ⟨step', hstep', hkey'⟩
    · -- The step keeps the entry, or puts its own one in its place.
      by_cases hkey : ownKey step.key raw
      · exact ih (.inl ⟨entry, entry_mem_put, ownKey_eq hkey hraw ▸ hown, hentry⟩)
      · exact ih (.inl ⟨raw, mem_put_of_mem hmem (Bool.eq_false_iff.2 hkey), hraw, hverifies⟩)
    · rcases List.mem_cons.1 hstep' with rfl | hstep'
      · exact ih (.inl ⟨entry, entry_mem_put, hkey' ▸ hown, hentry⟩)
      · exact ih (.inr ⟨step', hstep', hkey'⟩)

/-- A signer that only replaces has as many entries as before, and at least one. -/
theorem run_count {key : String} (hreplaces : ∀ step ∈ steps, step.key = key → step.replaces) :
    (signaturesOf record').countP (ownKey key) =
      max (if ∃ step ∈ steps, step.key = key then 1 else 0)
        ((signaturesOf record).countP (ownKey key)) := by
  refine cosign_induction (motive := fun steps r =>
    (∀ step ∈ steps, step.key = key → step.replaces) →
    (signaturesOf record').countP (ownKey key) =
      max (if ∃ step ∈ steps, step.key = key then 1 else 0)
        ((signaturesOf r).countP (ownKey key))) hP hresolve hsteps h (by simp) ?_ hreplaces
  intro step steps r entry _ hown ih hreplaces
  rw [ih fun step' hstep' => hreplaces step' (List.mem_cons_of_mem _ hstep'), signaturesOf_set]
  by_cases hkey : step.key = key
  · subst hkey
    have hstep : ∃ step' ∈ step :: steps, step'.key = step.key :=
      ⟨step, List.mem_cons_self, rfl⟩
    rw [countP_put (hreplaces step List.mem_cons_self rfl) hown, if_pos hstep]
    split_ifs <;> omega
  · rw [List.countP_eq_length_filter, filter_put (fun raw hraw => ?_) hown,
      ← List.countP_eq_length_filter]
    · simp [hkey]
    · exact Bool.eq_false_iff.2 fun hraw' => hkey (ownKey_eq hraw hraw')

/-- The first entry of a signer that only replaces verifies. -/
theorem run_first {key : String} (hreplaces : ∀ step ∈ steps, step.key = key → step.replaces)
    (hkey : (∃ raw, (signaturesOf record).find? (ownKey key) = some raw ∧
        Verifies P keyResolver record repository fields raw) ∨ ∃ step ∈ steps, step.key = key) :
    ∃ raw, (signaturesOf record').find? (ownKey key) = some raw ∧
      Verifies P keyResolver record repository fields raw := by
  refine cosign_induction (motive := fun steps r =>
    (∀ step ∈ steps, step.key = key → step.replaces) →
    (∃ raw, (signaturesOf r).find? (ownKey key) = some raw ∧
      Verifies P keyResolver r repository fields raw) ∨ (∃ step ∈ steps, step.key = key) →
    ∃ raw, (signaturesOf record').find? (ownKey key) = some raw ∧
      Verifies P keyResolver r repository fields raw) hP hresolve hsteps h ?_ ?_ hreplaces hkey
  · rintro - (hfirst | ⟨step, hstep, -⟩)
    · exact hfirst
    · cases hstep
  · intro step steps r entry hentry hown ih hreplaces hkey
    specialize ih fun step' hstep' => hreplaces step' (List.mem_cons_of_mem _ hstep')
    simp only [signaturesOf_set, verifies_set_signatures] at ih
    by_cases hstep : step.key = key
    · subst hstep
      exact ih (.inl ⟨entry, find?_put (hreplaces step List.mem_cons_self rfl) hown, hentry⟩)
    · have hother : ∀ raw, ownKey step.key raw → ownKey key raw = false := fun raw hraw =>
        Bool.eq_false_iff.2 fun hraw' => hstep (ownKey_eq hraw hraw')
      rcases hkey with ⟨raw, hfirst, hverifies⟩ | ⟨step', hstep', hkey'⟩
      · refine ih (.inl ⟨raw, ?_, hverifies⟩)
        rw [← List.head?_filter, filter_put hother hown, List.head?_filter, hfirst]
      · rcases List.mem_cons.1 hstep' with rfl | hstep'
        · exact absurd hkey' hstep
        · exact ih (.inr ⟨step', hstep', hkey'⟩)

end

/-! ## What a run leaves -/

/-- `verify` accepts the entry wherever it stands in the record; so does
    `verifyInlineAttestation`, when the whole record is bound. -/
def Accepted (P : Primitives) (keyResolver : String → Except String KeyData) (record : RecordMap)
    (repository : String) (fields : Option (List String)) (raw : Value) : Prop :=
  (∀ recordResolver role index, (signaturesOf record)[index]? = some raw →
    ∃ type, ⟨index, type, true, none⟩ ∈ verify P ⟨record, repository, defaultKeyResolver P,
      recordResolver, fields, role⟩) ∧
  (fields = none → ∃ entry, raw = .object entry ∧
    verifyInlineAttestation P keyResolver record entry repository = true)

theorem accepted_of_verifies {P : Primitives} {keyResolver : String → Except String KeyData}
    {record : RecordMap} {repository : String} {fields : Option (List String)} {raw : Value}
    (h : Verifies P keyResolver record repository fields raw) :
    Accepted P keyResolver record repository fields raw := by
  refine ⟨fun recordResolver role index hindex => ?_, h.market⟩
  obtain ⟨type, hentry⟩ := h.verify recordResolver role index
  exact ⟨type, List.mem_filterMap.2 ⟨(raw, index), List.mk_mem_zipIdx_iff_getElem?.2 hindex,
    hentry⟩⟩

/-- What the steps leave, from a record to another. -/
structure CoSigned {P : Primitives} (keyResolver : String → Except String KeyData)
    (repository : String) (fields : Option (List String)) (steps : List (CoSign P))
    (record record' : RecordMap) : Prop where
  /-- No entry is new that does not verify. -/
  entries : ∀ raw ∈ signaturesOf record', raw ∈ signaturesOf record ∨
    Accepted P keyResolver record' repository fields raw
  /-- Each signer has an entry that verifies. -/
  signers : ∀ step ∈ steps, ∃ raw ∈ signaturesOf record', ownKey step.key raw ∧
    Accepted P keyResolver record' repository fields raw
  /-- A signer that only replaces has one entry, if it had at most one; its first one verifies. -/
  replaced : ∀ step ∈ steps, (∀ step' ∈ steps, step'.key = step.key → step'.replaces) →
    (signaturesOf record').countP (ownKey step.key) =
      max 1 ((signaturesOf record).countP (ownKey step.key)) ∧
    ∃ raw, (signaturesOf record').find? (ownKey step.key) = some raw ∧
      Accepted P keyResolver record' repository fields raw
  /-- What no signer has signed stays, in order. -/
  others : ∀ p : Value → Bool, (∀ step ∈ steps, ∀ raw, ownKey step.key raw → p raw = false) →
    (signaturesOf record').filter p = (signaturesOf record).filter p

/-- The signer of a key of the table, without an issuer. -/
def sampleSigner (k : SampleKey) (h : k ∈ sampleKeys) : InlineSigner samplePrimitives where
  privateKey := ⟨.k256, k.priv⟩
  publicKey := "did:key:" ++ k.multibase
  signatureType := DEFAULT_SIGNATURE_TYPE
  proofType := DEFAULT_PROOF_TYPE
  role := none
  issuer := none
  agent := none
  agent_none := rfl
  key_own := by
    simp only [sampleKeys, List.mem_cons, List.not_mem_nil, or_false] at h
    rcases h with rfl | rfl | rfl | rfl <;> rfl

def sampleRecord (signatures : List Value) : RecordMap :=
  [("$type", .text "app.record"), ("text", .text "hello"), ("signatures", .array signatures)]

def sampleStep (k : SampleKey) (h : k ∈ sampleKeys) : CoSign samplePrimitives :=
  .signAndAppend (sampleSigner k h) none none none

theorem sampleStep_admissible {k : SampleKey} (h : k ∈ sampleKeys) :
    (sampleStep k h).Admissible none :=
  ⟨fun _ _ => List.not_mem_nil, (by decide : DEFAULT_SIGNATURE_TYPE ≠ STRONG_REF_NSID), rfl⟩

/-- A step succeeds on the record, whatever its signatures. -/
theorem sampleStep_ok {k : SampleKey} (h : k ∈ sampleKeys) (signatures : List Value) :
    ∃ signatures', (sampleStep k h).run "did:plc:alice" (sampleRecord signatures) =
      .ok (sampleRecord signatures') := by
  obtain ⟨bytes, hbytes⟩ : ∃ bytes, sampleEncode (.object
      [("$type", .text "app.record"), ("text", .text "hello"),
        ("$sig", .object [("$type", .text DEFAULT_SIGNATURE_TYPE),
          ("key", .text ("did:key:" ++ k.multibase)),
          ("repository", .text "did:plc:alice")])]) = .ok bytes := by
    have hplain : Cbor.plain (.object
        [("$type", .text "app.record"), ("text", .text "hello"),
          ("$sig", .object [("$type", .text DEFAULT_SIGNATURE_TYPE),
            ("key", .text ("did:key:" ++ k.multibase)),
            ("repository", .text "did:plc:alice")])]) := by
      simp only [sampleKeys, List.mem_cons, List.not_mem_nil, or_false] at h
      rcases h with rfl | rfl | rfl | rfl <;> decide +kernel
    obtain ⟨bytes, hbytes, -⟩ := Cbor.decode_encode hplain
    exact ⟨bytes, (if_pos hplain).trans hbytes⟩
  have hfind : (sampleKeys.find? fun k' => k'.priv = k.priv).map SampleKey.sig = some k.sig := by
    simp only [sampleKeys, List.mem_cons, List.not_mem_nil, or_false] at h
    rcases h with rfl | rfl | rfl | rfl <;> decide +kernel
  have hsign : ∀ payload, signBytes samplePrimitives payload ⟨.k256, k.priv⟩ = .ok k.sig := by
    intro payload
    have hsig : samplePrimitives.sign .k256 (sha256 payload).1 k.priv = .ok k.sig := by
      obtain ⟨k', hk', heq⟩ := Option.map_eq_some_iff.1 hfind
      simp only [samplePrimitives, hk', if_true, heq]
    obtain ⟨hlen, hlow⟩ := samplePrimitives_lawful.sign_compact KeyType.noConfusion hsig
    exact bind_eq_ok.2 ⟨_, hsig, normalizeSignature_of_low hlen hlow⟩
  have hcid : createAttestationCid sampleEncode (sampleRecord signatures)
      ((sampleSigner k h).inlineMetadata DEFAULT_SIGNATURE_TYPE none) "did:plc:alice" none =
      .ok (cidForBytes bytes) := by
    change (sampleEncode _ >>= fun bytes => Except.ok (cidForBytes bytes)) = _
    exact bind_eq_ok.2 ⟨bytes, hbytes, rfl⟩
  refine ⟨(sampleSigner k h).place signatures (.object ((sampleSigner k h).inlineEntry
    DEFAULT_SIGNATURE_TYPE none (cidForBytes bytes) k.sig)), ?_⟩
  refine bind_eq_ok.2 ⟨_, ?_, rfl⟩
  exact bind_eq_ok.2 ⟨_, hcid, bind_eq_ok.2 ⟨_, hsign _, rfl⟩⟩

theorem sample_cosign_ok {steps : List (CoSign samplePrimitives)}
    (h : ∀ step ∈ steps, ∃ k, ∃ hk : k ∈ sampleKeys, step = sampleStep k hk)
    (signatures : List Value) :
    ∃ record', cosign "did:plc:alice" steps (sampleRecord signatures) = .ok record' := by
  induction steps generalizing signatures with
  | nil => exact ⟨_, rfl⟩
  | cons step steps ih =>
    obtain ⟨k, hk, rfl⟩ := h step List.mem_cons_self
    obtain ⟨signatures', hstep⟩ := sampleStep_ok hk signatures
    obtain ⟨record', hrun⟩ := ih (fun step' hstep' => h step' (List.mem_cons_of_mem _ hstep'))
      signatures'
    refine ⟨record', ?_⟩
    rw [cosign, List.foldlM_cons, hstep]
    exact hrun

/-- The first key, the second one, and the first one again. -/
def sampleSteps : List (CoSign samplePrimitives) :=
  [sampleStep sampleKeys[0] (by simp [sampleKeys]), sampleStep sampleKeys[1] (by simp [sampleKeys]),
    sampleStep sampleKeys[0] (by simp [sampleKeys])]

theorem sampleSteps_sample : ∀ step ∈ sampleSteps, ∃ k, ∃ hk : k ∈ sampleKeys,
    step = sampleStep k hk := by
  intro step hstep
  simp only [sampleSteps, List.mem_cons, List.not_mem_nil, or_false] at hstep
  rcases hstep with rfl | rfl | rfl <;> exact ⟨_, _, rfl⟩

theorem sampleSteps_admissible : ∀ step ∈ sampleSteps, step.Admissible none := fun step hstep => by
  obtain ⟨k, hk, rfl⟩ := sampleSteps_sample step hstep
  exact sampleStep_admissible hk

end ComputeContract.Attest
