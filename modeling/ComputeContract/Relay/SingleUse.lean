import ComputeContract.Lib.Along
import ComputeContract.Relay.Nonce

/-!
# Nonces that are verified at once

Each signature of a registration is checked at an `await`, between the look at the nonce
and its drop. Here the `verify` calls on one store run in between one another, and nonces
are issued meanwhile.

* `run_alone`: a call with nothing in between is `NonceStore.verify`.
* `SingleUse`: what should hold in every state.
* `singleUse_of_careful`: it does as long as no signature verifies while another call with
  its nonce waits.
-/

namespace ComputeContract

open AssocList

/-- A call of `verify` that waits for the check of a signature. -/
structure Waiting where
  key : String
  nonce : String
  nonceBytes : Bytes
  /-- The keys and signatures left, that of the check first. -/
  checks : List (String × Bytes)
  startedAt : ℤ

/-- The store, the calls that wait, and what came of nonces so far: when each one expires,
    and when each call that consumed one had started. -/
structure Verifier where
  issued : NonceStore
  waiting : List Waiting
  issues : List (String × ℤ)
  consumed : List (String × ℤ)
  results : List VerifyResult

namespace Verifier

variable (P : Platform)

/-- The check of a signature, if it comes to one. -/
def checkOf (sig : PresentedSignature) : Option (String × Bytes) :=
  match truthy sig.key, truthy sig.signature with
  | some key, some signature => (P.decodeBase64 signature).map fun bytes => (key, bytes)
  | _, _ => none

/-- The call ends. -/
def ends (result : VerifyResult) (s : Verifier) : Verifier :=
  { s with results := s.results ++ [result] }

def NO_SIGNATURE : VerifyResult := .rejected "no signature verifies over the nonce"

/-- The loop over the signatures goes to the next check. -/
def waitFor (call : Waiting) (s : Verifier) : Verifier :=
  match call.checks with
  | [] => s.ends NO_SIGNATURE
  | _ => { s with waiting := s.waiting ++ [call] }

/-- A call, up to its first `await`. -/
def start (now : ℤ) (reg : RegistrationPayload) (s : Verifier) : Verifier :=
  match truthy reg.key, truthy reg.nonce, reg.signatures with
  | some key, some nonce, some signatures =>
    match s.issued.lookup nonce with
    | none => s.ends (.rejected "unknown or expired nonce")
    | some entry =>
      if entry.expiresAt < now then
        ends (.rejected "nonce expired") { s with issued := erase nonce s.issued }
      else if entry.key ≠ key then s.ends (.rejected "key does not match nonce issuance")
      else
        match P.decodeBase64 nonce with
        | none => s.ends .thrown
        | some nonceBytes => s.waitFor ⟨key, nonce, nonceBytes, signatures.filterMap (checkOf P), now⟩
  | _, _, _ => s.ends (.rejected "registration missing key/nonce/signatures")

/-- A signature verifies: the nonce is dropped. -/
def accept (call : Waiting) (s : Verifier) : Verifier :=
  ends (.ok call.key) { s with
    issued := erase call.nonce s.issued
    consumed := s.consumed ++ [(call.nonce, call.startedAt)] }

/-- The first check of a call verifies; it may throw. -/
def verifies (call : Waiting) : Bool :=
  call.checks.head?.any fun check => P.verifySignature check.1 call.nonceBytes check.2 = some true

/-- The check of a call comes back. -/
def resume (i : ℕ) (s : Verifier) : Verifier :=
  match s.waiting[i]? with
  | none => s
  | some call =>
    let s := { s with waiting := s.waiting.eraseIdx i }
    if verifies P call then s.accept call
    else s.waitFor { call with checks := call.checks.tail }

def issue (ttlMs now : ℤ) (bytes : Bytes) (key : String) (s : Verifier) : Verifier :=
  { s with
    issued := s.issued.issue P ttlMs now bytes key
    issues := s.issues ++ [(P.encodeBase64 bytes, now + ttlMs)] }

/-- What happens next. -/
inductive Event
  | issue (now : ℤ) (bytes : Bytes) (key : String)
  | start (now : ℤ) (reg : RegistrationPayload)
  | resume (i : ℕ)

def step (ttlMs : ℤ) (s : Verifier) : Event → Verifier
  | .issue now bytes key => s.issue P ttlMs now bytes key
  | .start now reg => s.start P now reg
  | .resume i => s.resume P i

def initial : Verifier := ⟨[], [], [], [], []⟩

/-! ## A call alone -/

variable {P} {s : Verifier}

theorem any_verifiesItself (nonceBytes : Bytes) (signatures : List PresentedSignature) :
    signatures.any (NonceStore.verifiesItself P nonceBytes) =
      (signatures.filterMap (checkOf P)).any fun check =>
        P.verifySignature check.1 nonceBytes check.2 = some true := by
  induction signatures with
  | nil => rfl
  | cons sig signatures ih =>
    have hsig : NonceStore.verifiesItself P nonceBytes sig =
        (checkOf P sig).any fun check => P.verifySignature check.1 nonceBytes check.2 = some true := by
      rw [NonceStore.verifiesItself, checkOf]
      cases truthy sig.key with
      | none => rfl
      | some key =>
        dsimp only
        unfold NonceStore.verifiesUnder
        cases truthy sig.signature with
        | none => rfl
        | some signature => cases hbytes : P.decodeBase64 signature <;> simp [hbytes]
    rw [List.any_cons, ih, hsig, List.filterMap_cons]
    cases checkOf P sig <;> rfl

theorem resume_of_waiting_nil (h : s.waiting = []) (n : ℕ) : (resume P 0)^[n] s = s := by
  have hfix : s.resume P 0 = s := by rw [resume, h]; rfl
  exact Function.iterate_fixed hfix n

/-- The checks of a call, one after the other. -/
theorem resume_alone (call : Waiting) (hwaiting : s.waiting = []) :
    (resume P 0)^[call.checks.length] (s.waitFor call) =
      if call.checks.any fun check => P.verifySignature check.1 call.nonceBytes check.2 = some true
      then s.accept call else s.ends NO_SIGNATURE := by
  obtain ⟨key, nonce, nonceBytes, checks, startedAt⟩ := call
  induction checks with
  | nil => rfl
  | cons check checks ih =>
    -- The call waits for its first check alone, and `s` is what is left of it.
    have hresume : (s.waitFor ⟨key, nonce, nonceBytes, check :: checks, startedAt⟩).resume P 0 =
        if P.verifySignature check.1 nonceBytes check.2 = some true
        then s.accept ⟨key, nonce, nonceBytes, check :: checks, startedAt⟩
        else s.waitFor ⟨key, nonce, nonceBytes, checks, startedAt⟩ := by
      obtain ⟨issued, waiting, issues, consumed, results⟩ := s
      cases hwaiting
      simp [waitFor, resume, verifies]
    rw [List.length_cons, Function.iterate_succ_apply, hresume, List.any_cons]
    by_cases hverifies : P.verifySignature check.1 nonceBytes check.2 = some true
    · rw [if_pos hverifies, resume_of_waiting_nil (by exact hwaiting)]
      simp [hverifies, accept]
    · rw [if_neg hverifies, ih, decide_eq_false hverifies, Bool.false_or]
      rfl

/-- How many checks a call comes to. -/
def checkCount (P : Platform) (reg : RegistrationPayload) : ℕ :=
  ((reg.signatures.getD []).filterMap (checkOf P)).length

/-- A call with nothing in between is `verify`. -/
theorem run_alone (P : Platform) (now : ℤ) (reg : RegistrationPayload) (hwaiting : s.waiting = []) :
    ((resume P 0)^[checkCount P reg] (s.start P now reg)).issued =
        (NonceStore.verify P now reg s.issued).2 ∧
      ((resume P 0)^[checkCount P reg] (s.start P now reg)).results =
        s.results ++ [(NonceStore.verify P now reg s.issued).1] := by
  have hnil : ∀ s' : Verifier, s'.waiting = [] → ∀ n, (resume P 0)^[n] s' = s' :=
    fun s' h => resume_of_waiting_nil h
  unfold start NonceStore.verify checkCount
  cases truthy reg.key with
  | none =>
    rw [hnil _ (by exact hwaiting)]
    exact ⟨rfl, rfl⟩
  | some key =>
  cases truthy reg.nonce with
  | none =>
    rw [hnil _ (by exact hwaiting)]
    exact ⟨rfl, rfl⟩
  | some nonce =>
  cases reg.signatures with
  | none =>
    rw [hnil _ (by exact hwaiting)]
    exact ⟨rfl, rfl⟩
  | some signatures =>
  dsimp only
  cases hentry : s.issued.lookup nonce with
  | none =>
    rw [hnil _ (by exact hwaiting)]
    exact ⟨rfl, rfl⟩
  | some entry =>
  dsimp only
  split_ifs
  · rw [hnil _ (by exact hwaiting)]
    exact ⟨rfl, rfl⟩
  · rw [hnil _ (by exact hwaiting)]
    exact ⟨rfl, rfl⟩
  cases P.decodeBase64 nonce with
  | none =>
    rw [hnil _ (by exact hwaiting)]
    exact ⟨rfl, rfl⟩
  | some nonceBytes =>
    have hrun := resume_alone (P := P)
      ⟨key, nonce, nonceBytes, signatures.filterMap (checkOf P), now⟩ hwaiting
    dsimp only [Option.getD_some] at hrun ⊢
    rw [hrun, any_verifiesItself]
    split_ifs
    · exact ⟨rfl, rfl⟩
    · exact ⟨rfl, rfl⟩

/-! ## Single use -/

/-- Each nonce was consumed once at most, by a call that started before it expired. -/
structure SingleUse (s : Verifier) : Prop where
  once : (keys s.consumed).Nodup
  unexpired : ∀ c ∈ s.consumed, ∀ i ∈ s.issues, i.1 = c.1 → c.2 ≤ i.2

/-- The random bytes of a nonce do not come twice. -/
def Fresh (P : Platform) (s : Verifier) : Event → Prop
  | .issue _ bytes _ => P.encodeBase64 bytes ∉ keys s.issues
  | _ => True

/-- When a signature verifies, no other call with its nonce waits. -/
def Alone (P : Platform) (s : Verifier) : Event → Prop
  | .resume i => ∀ call ∈ s.waiting[i]?, verifies P call →
      ∀ other ∈ s.waiting.eraseIdx i, other.nonce ≠ call.nonce
  | _ => True

instance (P : Platform) (s : Verifier) : ∀ e, Decidable (Fresh P s e)
  | .issue _ bytes _ => inferInstanceAs (Decidable (P.encodeBase64 bytes ∉ keys s.issues))
  | .start .. | .resume _ => inferInstanceAs (Decidable True)

instance (P : Platform) (s : Verifier) : ∀ e, Decidable (Alone P s e)
  | .resume i => inferInstanceAs (Decidable (∀ call ∈ s.waiting[i]?, verifies P call →
      ∀ other ∈ s.waiting.eraseIdx i, other.nonce ≠ call.nonce))
  | .issue .. | .start .. => inferInstanceAs (Decidable True)

/-- The call may consume its nonce: no other one did, and it started in time. -/
structure Timely (s : Verifier) (call : Waiting) : Prop where
  unused : call.nonce ∉ keys s.consumed
  intime : ∃ t, (call.nonce, t) ∈ s.issues ∧ call.startedAt ≤ t

structure Inv (s : Verifier) : Prop where
  issues : (keys s.issues).Nodup
  issued : ∀ e ∈ s.issued, (e.1, e.2.expiresAt) ∈ s.issues ∧ e.1 ∉ keys s.consumed
  waiting : ∀ call ∈ s.waiting, Timely s call
  consumed : ∀ c ∈ s.consumed, ∃ t, (c.1, t) ∈ s.issues ∧ c.2 ≤ t
  once : (keys s.consumed).Nodup

theorem Inv.singleUse (h : Inv s) : SingleUse s := by
  refine ⟨h.once, fun c hc i hi hic => ?_⟩
  obtain ⟨t, ht, hle⟩ := h.consumed c hc
  obtain ⟨nonce, t'⟩ := i
  subst hic
  have heq : t' = t := by
    rw [mem_iff_lookup h.issues] at hi ht
    exact Option.some.inj (hi.symm.trans ht)
  rwa [heq]

theorem Inv.ends (h : Inv s) (result : VerifyResult) : Inv (s.ends result) :=
  ⟨h.issues, h.issued, fun call hcall => ⟨(h.waiting call hcall).1, (h.waiting call hcall).2⟩,
    h.consumed, h.once⟩

/-- Nonces may be dropped. -/
theorem Inv.drop (h : Inv s) (nonce : String) : Inv { s with issued := erase nonce s.issued } :=
  ⟨h.issues, fun e he => h.issued e (mem_of_mem_erase he),
    fun call hcall => ⟨(h.waiting call hcall).1, (h.waiting call hcall).2⟩, h.consumed, h.once⟩

theorem Inv.waitFor (h : Inv s) {call : Waiting} (hcall : Timely s call) : Inv (s.waitFor call) := by
  rw [Verifier.waitFor]
  split
  · exact h.ends _
  · refine ⟨h.issues, h.issued, fun other hother => ?_, h.consumed, h.once⟩
    rcases List.mem_append.1 hother with hother | hother
    · exact ⟨(h.waiting other hother).1, (h.waiting other hother).2⟩
    · rw [List.mem_singleton.1 hother]
      exact ⟨hcall.1, hcall.2⟩

theorem Inv.start (h : Inv s) (now : ℤ) (reg : RegistrationPayload) : Inv (s.start P now reg) := by
  unfold Verifier.start
  split
  · rename_i key nonce signatures _ _ _
    cases hentry : s.issued.lookup nonce with
    | none => exact h.ends _
    | some entry =>
      dsimp only
      split_ifs with hexpired
      · exact (h.drop nonce).ends _
      · exact h.ends _
      · split
        · exact h.ends _
        · obtain ⟨hissue, hunused⟩ := h.issued _ (mem_of_lookup hentry)
          exact h.waitFor ⟨hunused, entry.expiresAt, hissue, not_lt.1 hexpired⟩
  · exact h.ends _

/-- A nonce that was not issued before. -/
theorem Inv.issue (h : Inv s) (ttlMs now : ℤ) (bytes : Bytes) (key : String)
    (hfresh : P.encodeBase64 bytes ∉ keys s.issues) : Inv (s.issue P ttlMs now bytes key) := by
  have hunused : P.encodeBase64 bytes ∉ keys s.consumed := fun hmem => by
    obtain ⟨startedAt, hmem⟩ := mem_keys.1 hmem
    obtain ⟨t, ht, _⟩ := h.consumed _ hmem
    exact hfresh (mem_keys_of_mem ht)
  refine ⟨?_, fun e he => ?_, fun call hcall => ?_, fun c hc => ?_, h.once⟩
  · change (keys (s.issues ++ _)).Nodup
    rw [keys_append, List.nodup_append]
    refine ⟨h.issues, List.nodup_singleton _, fun nonce hn nonce' hn' heq => ?_⟩
    rw [heq, List.mem_singleton.1 hn'] at hn
    exact hfresh hn
  · rcases mem_set he with rfl | he
    · exact ⟨List.mem_append_right _ (List.mem_singleton_self _), hunused⟩
    · obtain ⟨hissue, hnot⟩ := h.issued e (List.mem_filter.1 he).1
      exact ⟨List.mem_append_left _ hissue, hnot⟩
  · obtain ⟨hnot, t, ht, hle⟩ := h.waiting call hcall
    exact ⟨hnot, t, List.mem_append_left _ ht, hle⟩
  · obtain ⟨t, ht, hle⟩ := h.consumed c hc
    exact ⟨t, List.mem_append_left _ ht, hle⟩

/-- A call that waits alone for its nonce. -/
theorem Inv.accept (h : Inv s) {call : Waiting} (hcall : Timely s call)
    (halone : ∀ other ∈ s.waiting, other.nonce ≠ call.nonce) : Inv (s.accept call) := by
  have hkeys : keys (s.accept call).consumed = keys s.consumed ++ [call.nonce] := keys_append ..
  have hunused : ∀ nonce, nonce ∉ keys s.consumed → nonce ≠ call.nonce →
      nonce ∉ keys (s.accept call).consumed := by
    intro nonce hnot hne hmem
    rw [hkeys, List.mem_append, List.mem_singleton] at hmem
    exact hmem.elim hnot hne
  refine ⟨h.issues, fun e he => ?_, fun other hother => ?_, fun c hc => ?_, ?_⟩
  · obtain ⟨he, hne⟩ := List.mem_filter.1 he
    obtain ⟨hissue, hnot⟩ := h.issued e he
    exact ⟨hissue, hunused e.1 hnot (by simpa using hne)⟩
  · obtain ⟨hnot, hintime⟩ := h.waiting other hother
    exact ⟨hunused other.nonce hnot (halone other hother), hintime⟩
  · rcases List.mem_append.1 hc with hc | hc
    · exact h.consumed c hc
    · rw [List.mem_singleton.1 hc]
      exact hcall.intime
  · rw [hkeys, List.nodup_append]
    refine ⟨h.once, List.nodup_singleton _, fun nonce hn nonce' hn' heq => ?_⟩
    rw [List.mem_singleton.1 hn'] at heq
    exact hcall.unused (heq ▸ hn)

theorem Inv.resume (h : Inv s) {i : ℕ} (halone : Alone P s (.resume i)) : Inv (s.resume P i) := by
  unfold Verifier.resume
  cases hcall : s.waiting[i]? with
  | none => exact h
  | some call =>
    have hrest : Inv { s with waiting := s.waiting.eraseIdx i } :=
      ⟨h.issues, h.issued, fun other hother =>
        have hwaits := h.waiting other (List.mem_of_mem_eraseIdx hother)
        ⟨hwaits.1, hwaits.2⟩, h.consumed, h.once⟩
    have htimely := h.waiting call (List.mem_of_getElem? hcall)
    dsimp only
    split_ifs with hverifies
    · exact hrest.accept ⟨htimely.1, htimely.2⟩ (halone call hcall hverifies)
    · exact hrest.waitFor ⟨htimely.1, htimely.2⟩

theorem inv_step (P : Platform) (ttlMs : ℤ) (h : Inv s) {e : Event} (hfresh : Fresh P s e)
    (halone : Alone P s e) : Inv (step P ttlMs s e) := by
  cases e with
  | issue now bytes key => exact h.issue ttlMs now bytes key hfresh
  | start now reg => exact h.start now reg
  | resume i => exact h.resume halone

theorem inv_initial : Inv initial :=
  ⟨List.nodup_nil, by simp [initial], by simp [initial], by simp [initial], List.nodup_nil⟩

/-- Nonces are used once in every run where no signature verifies while another call with
    its nonce waits. -/
theorem singleUse_of_careful (P : Platform) (ttlMs : ℤ) (events : List Event)
    (h : Along (step P ttlMs) (fun s e => Fresh P s e ∧ Alone P s e) initial events) :
    Along (step P ttlMs) (fun s e => SingleUse (step P ttlMs s e)) initial events := by
  have hstep : ∀ s e, Inv s → Fresh P s e ∧ Alone P s e →
      SingleUse (step P ttlMs s e) ∧ Inv (step P ttlMs s e) := by
    intro s e hs he
    have hnext := inv_step P ttlMs hs he.1 he.2
    exact ⟨hnext.singleUse, hnext⟩
  exact along_of_inv hstep inv_initial h

/-! ## One registration on two sockets -/

/-- A registration with a nonce and a signature that verifies. -/
def sampleRegistration : RegistrationPayload :=
  ⟨some "did:key:other", some NonceStore.sampleNonce.2, some [⟨some "did:key:other", some "c2ln"⟩]⟩

theorem singleUse_sample : Along (step NonceStore.samplePlatform 60000)
    (fun s e => SingleUse (step NonceStore.samplePlatform 60000 s e)) initial
    [.issue 0 NonceStore.sampleNonce.1 "did:key:other", .start 1 sampleRegistration, .resume 0,
      .start 2 sampleRegistration] :=
  singleUse_of_careful NonceStore.samplePlatform 60000
    [.issue 0 NonceStore.sampleNonce.1 "did:key:other", .start 1 sampleRegistration, .resume 0,
      .start 2 sampleRegistration] (by decide +kernel)

/-- Two calls look the nonce up before one of them drops it: both are accepted. -/
theorem not_singleUse : ¬ ∀ (P : Platform) (ttlMs : ℤ) (events : List Event),
    Along (step P ttlMs) (Fresh P) initial events →
      Along (step P ttlMs) (fun s e => SingleUse (step P ttlMs s e)) initial events := by
  intro h
  have hrun := h NonceStore.samplePlatform 60000
    [.issue 0 NonceStore.sampleNonce.1 "did:key:other", .start 1 sampleRegistration,
      .start 1 sampleRegistration, .resume 0, .resume 0] (by decide +kernel)
  exact absurd hrun.2.2.2.2.1.once (by decide +kernel)

end Verifier

end ComputeContract
