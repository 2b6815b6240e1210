import Mathlib.Data.List.Induction
import ComputeContract.Lib.AssocList
import ComputeContract.Util.Text

/-!
# Registration nonces

A subscriber asks for a nonce with its key, and registers by presenting signatures over
the nonce. The nonce says for which key it was issued; each signature names a key of its
own, and it is that key the signature is checked against.

* `verify_authentic_iff`: when a registration that is accepted was signed with the key it
  registers.
-/

namespace ComputeContract

open AssocList

/-- The curve signatures and the base64 codec of the platform. -/
structure Platform where
  /-- Check a signature over data under a did:key; it may throw. -/
  verifySignature : String → Bytes → Bytes → Option Bool
  encodeBase64 : Bytes → String
  decodeBase64 : String → Option Bytes

/-- A signature as it is presented, with the key it names. -/
structure PresentedSignature where
  key : Option String
  signature : Option String

/-- A registration; what is missing, or is not an array, is `none`. -/
structure RegistrationPayload where
  key : Option String
  nonce : Option String
  signatures : Option (List PresentedSignature)

/-- A nonce in the store. -/
structure IssuedNonce where
  key : String
  expiresAt : ℤ

/-- The nonces that were issued. -/
abbrev NonceStore := List (String × IssuedNonce)

/-- What `verify` gives. -/
inductive VerifyResult
  | ok (key : String)
  | rejected (reason : String)
  /-- It throws. -/
  | thrown
  deriving DecidableEq

/-- A string that is there and not empty. -/
def truthy (s : Option String) : Option String := s.filter (· ≠ "")

namespace NonceStore

variable (P : Platform)

/-- Issue a nonce for a key; `bytes` are the random ones. Expired nonces are dropped. -/
def issue (ttlMs now : ℤ) (bytes : Bytes) (key : String) (issued : NonceStore) : NonceStore :=
  AssocList.set (P.encodeBase64 bytes) ⟨key, now + ttlMs⟩ (issued.filter fun e => ¬ e.2.expiresAt < now)

/-- The signature verifies over the nonce under `key`; whatever throws does not. -/
def verifiesUnder (nonceBytes : Bytes) (key : String) (sig : PresentedSignature) : Bool :=
  match truthy sig.signature with
  | none => false
  | some signature =>
    match P.decodeBase64 signature with
    | none => false
    | some bytes => P.verifySignature key nonceBytes bytes = some true

/-- The check in the loop: under the key that the signature names. -/
def verifiesItself (nonceBytes : Bytes) (sig : PresentedSignature) : Bool :=
  match truthy sig.key with
  | none => false
  | some key => verifiesUnder P nonceBytes key sig

/-- Verify a registration: the result, and the store after it. -/
def verify (now : ℤ) (reg : RegistrationPayload) (issued : NonceStore) :
    VerifyResult × NonceStore :=
  match truthy reg.key, truthy reg.nonce, reg.signatures with
  | some key, some nonce, some signatures =>
    match issued.lookup nonce with
    | none => (.rejected "unknown or expired nonce", issued)
    | some entry =>
      if entry.expiresAt < now then (.rejected "nonce expired", erase nonce issued)
      else if entry.key ≠ key then (.rejected "key does not match nonce issuance", issued)
      else
        match P.decodeBase64 nonce with
        | none => (.thrown, issued)
        | some nonceBytes =>
          if signatures.any (verifiesItself P nonceBytes) then (.ok key, erase nonce issued)
          else (.rejected "no signature verifies over the nonce", issued)
  | _, _, _ => (.rejected "registration missing key/nonce/signatures", issued)

/-! ## Histories -/

/-- What happens to a store. The signatures are checked in between the read and the drop
    of a nonce, so that a drop may come later. -/
inductive Event
  | issue (now : ℤ) (bytes : Bytes) (key : String)
  | verify (now : ℤ) (reg : RegistrationPayload)
  | drop (nonce : String)

def step (ttlMs : ℤ) (issued : NonceStore) : Event → NonceStore
  | .issue now bytes key => issue P ttlMs now bytes key issued
  | .verify now reg => (verify P now reg issued).2
  | .drop nonce => erase nonce issued

/-- The store after a history. -/
def after (ttlMs : ℤ) (history : List Event) : NonceStore := history.foldl (step P ttlMs) []

/-- The nonce was issued for the key. -/
def IssuedFor (history : List Event) (nonce key : String) : Prop :=
  ∃ now bytes, Event.issue now bytes key ∈ history ∧ P.encodeBase64 bytes = nonce

/-- A registration with this result was signed with the key it registers: the nonce was
    issued for the key, and a signature that is presented verifies under it. -/
def Authentic (history : List Event) (reg : RegistrationPayload) (result : VerifyResult) : Prop :=
  ∀ key, result = .ok key → ∃ nonce nonceBytes signatures, reg.nonce = some nonce ∧
    P.decodeBase64 nonce = some nonceBytes ∧ reg.signatures = some signatures ∧
    IssuedFor P history nonce key ∧ ∃ sig ∈ signatures, verifiesUnder P nonceBytes key sig

/-- The nonce is one that is current for the key of the registration. -/
structure Current (issued : NonceStore) (now : ℤ) (key nonce : String) : Prop where
  key_ne : key ≠ ""
  nonce_ne : nonce ≠ ""
  entry : ∃ entry, issued.lookup nonce = some entry ∧ entry.key = key ∧ now ≤ entry.expiresAt

/-- A signature that verifies under the key it names comes with one that verifies under
    the key that is registered, when the nonce is current for it. -/
def SignedByKey (issued : NonceStore) (now : ℤ) (reg : RegistrationPayload) : Prop :=
  ∀ key nonce nonceBytes signatures, reg.key = some key → reg.nonce = some nonce →
    P.decodeBase64 nonce = some nonceBytes → reg.signatures = some signatures →
    Current issued now key nonce → signatures.any (verifiesItself P nonceBytes) →
    ∃ sig ∈ signatures, verifiesUnder P nonceBytes key sig

variable {P}

/-- A `verify` only drops nonces. -/
theorem verify_subset {now : ℤ} {reg : RegistrationPayload} {issued : NonceStore}
    {e : String × IssuedNonce} (h : e ∈ (verify P now reg issued).2) : e ∈ issued := by
  unfold verify at h
  split at h
  · split at h
    · exact h
    · split_ifs at h
      · exact mem_of_mem_erase h
      · exact h
      · split at h
        · exact h
        · split_ifs at h
          · exact mem_of_mem_erase h
          · exact h
  · exact h

/-- Every nonce in the store was issued for the key it has there. -/
theorem issuedFor_of_mem {ttlMs : ℤ} (history : List Event) :
    ∀ e ∈ after P ttlMs history, IssuedFor P history e.1 e.2.key := by
  induction history using List.reverseRecOn with
  | nil => simp [after]
  | append_singleton history event ih =>
    intro e he
    have hold : ∀ e ∈ after P ttlMs history, IssuedFor P (history ++ [event]) e.1 e.2.key :=
      fun e he => (ih e he).imp fun now ⟨bytes, hmem, hb⟩ =>
        ⟨bytes, List.mem_append_left _ hmem, hb⟩
    rw [after, List.foldl_append] at he
    change e ∈ step P ttlMs (after P ttlMs history) event at he
    cases event with
    | issue now bytes key =>
      rcases mem_set he with rfl | he
      · exact ⟨now, bytes, by simp, rfl⟩
      · exact hold e (List.mem_filter.1 he).1
    | verify now reg => exact hold e (verify_subset he)
    | drop nonce => exact hold e (mem_of_mem_erase he)

theorem truthy_eq_some {s : Option String} {t : String} : truthy s = some t ↔ s = some t ∧ t ≠ "" := by
  rw [truthy, Option.filter_eq_some_iff, decide_eq_true_eq]

/-- When `verify` accepts. -/
theorem verify_eq_ok {now : ℤ} {reg : RegistrationPayload} {issued : NonceStore} {key : String} :
    (verify P now reg issued).1 = .ok key ↔ ∃ nonce nonceBytes signatures, reg.key = some key ∧
      reg.nonce = some nonce ∧ P.decodeBase64 nonce = some nonceBytes ∧
      reg.signatures = some signatures ∧ Current issued now key nonce ∧
      signatures.any (verifiesItself P nonceBytes) := by
  constructor
  · intro h
    unfold verify at h
    split at h
    · rename_i key' nonce signatures hkey hnonce hsigs
      rw [truthy_eq_some] at hkey hnonce
      split at h
      · cases h
      · rename_i entry hentry
        split_ifs at h with hexp hne
        split at h
        · cases h
        · rename_i nonceBytes hbytes
          split_ifs at h with hany
          cases h
          exact ⟨nonce, nonceBytes, signatures, hkey.1, hnonce.1, hbytes, hsigs,
            ⟨hkey.2, hnonce.2, entry, hentry, not_not.1 hne, not_lt.1 hexp⟩, hany⟩
    · cases h
  · rintro ⟨nonce, nonceBytes, signatures, hkey, hnonce, hbytes, hsigs,
      ⟨hk, hn, entry, hentry, rfl, hexp⟩, hany⟩
    unfold verify
    rw [truthy_eq_some.2 ⟨hkey, hk⟩, truthy_eq_some.2 ⟨hnonce, hn⟩, hsigs]
    dsimp only
    rw [hentry]
    dsimp only
    rw [if_neg (not_lt.2 hexp), if_neg (not_not.2 rfl), hbytes]
    dsimp only
    rw [if_pos hany]

/-- A registration that is accepted was signed with its key exactly when the signatures
    that verify under the keys they name do not come alone. -/
theorem verify_authentic_iff (P : Platform) (ttlMs : ℤ) (history : List Event) (now : ℤ)
    (reg : RegistrationPayload) :
    Authentic P history reg (verify P now reg (after P ttlMs history)).1 ↔
      SignedByKey P (after P ttlMs history) now reg := by
  constructor
  · intro h key nonce nonceBytes signatures hkey hnonce hbytes hsigs hcur hany
    obtain ⟨nonce', nonceBytes', signatures', hnonce', hbytes', hsigs', _, hsig⟩ :=
      h key (verify_eq_ok.2 ⟨nonce, nonceBytes, signatures, hkey, hnonce, hbytes, hsigs, hcur, hany⟩)
    cases hnonce.symm.trans hnonce'
    cases hbytes.symm.trans hbytes'
    cases hsigs.symm.trans hsigs'
    exact hsig
  · intro h key hok
    obtain ⟨nonce, nonceBytes, signatures, hkey, hnonce, hbytes, hsigs, hcur, hany⟩ :=
      verify_eq_ok.1 hok
    obtain ⟨entry, hentry, hentryKey, _⟩ := hcur.entry
    have hissued := issuedFor_of_mem history _ (mem_of_lookup hentry)
    rw [hentryKey] at hissued
    exact ⟨nonce, nonceBytes, signatures, hnonce, hbytes, hsigs, hissued,
      h key nonce nonceBytes signatures hkey hnonce hbytes hsigs hcur hany⟩

/-- Signatures that name no other key. -/
theorem signedByKey_of_keys {issued : NonceStore} {now : ℤ} {reg : RegistrationPayload}
    (h : ∀ signatures, reg.signatures = some signatures → ∀ sig ∈ signatures, sig.key = reg.key) :
    SignedByKey P issued now reg := by
  intro key nonce nonceBytes signatures hkey _ _ hsigs _ hany
  obtain ⟨sig, hsig, hself⟩ := List.any_eq_true.1 hany
  refine ⟨sig, hsig, ?_⟩
  rw [verifiesItself, h signatures hsigs sig hsig, hkey] at hself
  split at hself
  · cases hself
  · rename_i k hk
    rw [truthy_eq_some] at hk
    cases hk.1
    exact hself

/-! ## A registration of another's key -/

/-- A nonce of 64 zero bytes, and its base64. -/
def sampleNonce : Bytes × String :=
  (List.replicate 64 0, String.ofList (List.replicate 86 'A' ++ ['=', '=']))

/-- A platform where one key signed the sample nonce. -/
def samplePlatform : Platform where
  verifySignature key data sig :=
    some (key = "did:key:other" ∧ data = sampleNonce.1 ∧ sig = textEncode "sig")
  encodeBase64 _ := sampleNonce.2
  decodeBase64 s :=
    if s = sampleNonce.2 then some sampleNonce.1
    else if s = "c2ln" then some (textEncode "sig")
    else none

/-- A key is registered with a signature of another key. -/
theorem verify_not_authentic : ¬ ∀ (P : Platform) (ttlMs : ℤ) (history : List Event) (now : ℤ)
    (reg : RegistrationPayload),
    Authentic P history reg (verify P now reg (after P ttlMs history)).1 := by
  intro h
  have hok : (verify samplePlatform 0
      ⟨some "did:key:owner", some sampleNonce.2, some [⟨some "did:key:other", some "c2ln"⟩]⟩
      (after samplePlatform 60000 [.issue 0 sampleNonce.1 "did:key:owner"])).1 =
        .ok "did:key:owner" := by
    decide +kernel
  obtain ⟨nonce, nonceBytes, signatures, _, _, hsigs, _, sig, hsig, hverifies⟩ :=
    h samplePlatform 60000 [.issue 0 sampleNonce.1 "did:key:owner"] 0
      ⟨some "did:key:owner", some sampleNonce.2, some [⟨some "did:key:other", some "c2ln"⟩]⟩ _ hok
  cases hsigs
  cases List.mem_singleton.1 hsig
  have hbytes : samplePlatform.decodeBase64 "c2ln" = some (textEncode "sig") := by decide +kernel
  rw [verifiesUnder, show truthy (some "c2ln") = some "c2ln" from rfl] at hverifies
  dsimp only at hverifies
  rw [hbytes] at hverifies
  simp [samplePlatform] at hverifies

end NonceStore

end ComputeContract
