import Mathlib.Data.List.TakeWhile
import Mathlib.Data.String.Basic
import ComputeContract.Lib.Along
import ComputeContract.Lib.AssocList

/-!
# Tenants

A spindle without an owner of its own serves many: each owner has the hostname that their DID
is turned into, and points the records of their repositories at it. The spindle sees these
records in listings and on the firehose, and keeps the hostname that each repository was last
pointed at, in a cache and in a durable record. A request comes in under a hostname and names
a repository.

* `getOwnerDid_effectiveHostname`: which DIDs a hostname stands for;
* `step`: records, stored copies of them, and the requests, each in its stages;
* `authorized_of_own`: a repository that is registered for a request is that of the owner whom
  the hostname stands for, unless it was recorded for another one.
-/

namespace ComputeContract.Spindle.Tenants

open AssocList

/-! ## Hostnames -/

section
variable (OWNER_DID HOSTNAME : String)

/-- Derive owner DID from the leftmost subdomain. -/
def subdomainToDID (host : String) : String :=
  String.ofList ((host.toList.takeWhile (· ≠ '.')).map fun c => if c = '-' then ':' else c)

def getOwnerDid (host : String) : String :=
  if OWNER_DID ≠ "" then OWNER_DID else subdomainToDID host

def didToSubdomain (did : String) : String :=
  String.ofList (did.toList.map fun c => if c = ':' then '-' else c)

/-- When no owner is set, each one gets a subdomain. -/
def effectiveHostname (ownerDid : String) : String :=
  if OWNER_DID ≠ "" then HOSTNAME else didToSubdomain ownerDid ++ "." ++ HOSTNAME

/-- A repository's spindle field points at this spindle. -/
def matchesThisSpindle (spindle : Option String) (ownerDid : String) : Bool :=
  match spindle with
  | none => false
  | some spindle =>
    spindle ≠ "" &&
      if OWNER_DID ≠ "" then spindle = HOSTNAME
      else spindle = effectiveHostname OWNER_DID HOSTNAME ownerDid

end

/-! ## The state -/

/-- A `sh.tangled.repo` record; a field that is no text matches nothing. -/
structure RepoRecord where
  spindle : Option String
  repoDid : Option String
  deriving DecidableEq

/-- How far a request is: it looks the repository up, lists the records of its owner, and
    looks again. -/
inductive Stage
  | first
  | discovering
  | second
  | answered (registered : Bool)
  | thrown
  deriving DecidableEq

/-- A call of `repoRegisteredToThisSpindle`. -/
structure Request where
  hostname : String
  repoDid : String
  stage : Stage
  deriving DecidableEq

/-- The records that owners have published, the cache, the versions of the durable records,
    the writes that are under way, and the requests. -/
structure State where
  published : List (String × RepoRecord)
  repoDidToSpindle : List (String × String)
  durable : List (String × String)
  puts : List (String × String)
  requests : List Request

section
variable (OWNER_DID HOSTNAME : String)

def rkey (repoDid : String) : String := HOSTNAME ++ "-" ++ repoDid

def recordRepoSpindle (repoDid spindle : String) (s : State) : State :=
  { s with
    repoDidToSpindle := set repoDid spindle s.repoDidToSpindle
    puts := s.puts ++ [(rkey HOSTNAME repoDid, spindle)] }

/-- A record of a listing or of the firehose. -/
def seeRecord (ownerDid : String) (rec : RepoRecord) (s : State) : State :=
  let s := { s with published := s.published ++ [(ownerDid, rec)] }
  match rec.repoDid, rec.spindle with
  | some repoDid, some spindle =>
    if ownerDid ≠ "" ∧ repoDid ≠ "" ∧ matchesThisSpindle OWNER_DID HOSTNAME rec.spindle ownerDid
    then recordRepoSpindle HOSTNAME repoDid spindle s
    else s
  | _, _ => s

def State.cached (s : State) (repoDid : String) : Option String :=
  (s.repoDidToSpindle.lookup repoDid).filter (· ≠ "")

/-- What a version of the durable record says of a repository. -/
def State.stored (s : State) (repoDid : String) (version : Option ℕ) : Option String :=
  match version.bind fun n => s.durable[n]? with
  | some (key, spindle) => if key = rkey HOSTNAME repoDid ∧ spindle ≠ "" then some spindle else none
  | none => none

def State.setStage (s : State) (i : ℕ) (req : Request) (stage : Stage) : State :=
  { s with requests := s.requests.set i { req with stage } }

/-- A request comes in. -/
def repoRegisteredToThisSpindle (hostname repoDid : String) (s : State) : State :=
  let stage :=
    if ¬ "did:".toList <+: (getOwnerDid OWNER_DID hostname).toList then .thrown
    else if (s.cached repoDid).isSome then .answered true
    else .first
  { s with requests := s.requests ++ [⟨hostname, repoDid, stage⟩] }

/-- The durable record of a request's repository is there, in some version, or it is not. -/
def reply (i : ℕ) (version : Option ℕ) (req : Request) (s : State) : State :=
  match req.stage with
  | .first | .second =>
    match s.stored HOSTNAME req.repoDid version with
    | some spindle =>
      { s with repoDidToSpindle := set req.repoDid spindle s.repoDidToSpindle }.setStage i req
        (.answered true)
    | none => s.setStage i req (if req.stage = .first then .discovering else .answered false)
  | _ => s

/-- The records of the owner have been listed. -/
def discovered (i : ℕ) (req : Request) (s : State) : State :=
  match req.stage with
  | .discovering =>
    s.setStage i req (if (s.cached req.repoDid).isSome then .answered true else .second)
  | _ => s

/-- What happens next. -/
inductive Event
  | record (ownerDid : String) (rec : RepoRecord)
  /-- A durable record is written, or the write fails. -/
  | putRecord (i : ℕ) (ok : Bool)
  | request (hostname repoDid : String)
  | reply (i : ℕ) (version : Option ℕ)
  | discovered (i : ℕ)
  | restart

def step (s : State) : Event → State
  | .record ownerDid rec => seeRecord OWNER_DID HOSTNAME ownerDid rec s
  | .putRecord i ok =>
    match s.puts[i]? with
    | none => s
    | some put =>
      { s with
        puts := s.puts.eraseIdx i
        durable := if ok then s.durable ++ [put] else s.durable }
  | .request hostname repoDid => repoRegisteredToThisSpindle OWNER_DID hostname repoDid s
  | .reply i version =>
    match s.requests[i]? with
    | none => s
    | some req => reply HOSTNAME i version req s
  | .discovered i =>
    match s.requests[i]? with
    | none => s
    | some req => discovered i req s
  | .restart => { s with repoDidToSpindle := [], puts := [], requests := [] }

def initial : State := ⟨[], [], [], [], []⟩

/-! ## What should hold -/

/-- The owner has published a record of the repository that points at their own hostname. -/
def Publishes (s : State) (ownerDid repoDid : String) : Prop :=
  ∃ rec, (ownerDid, rec) ∈ s.published ∧ rec.repoDid = some repoDid ∧
    rec.spindle = some (effectiveHostname OWNER_DID HOSTNAME ownerDid)

/-- A repository that is registered is that of the owner whom the hostname stands for. -/
def Authorized (s : State) : Prop :=
  ∀ req ∈ s.requests, req.stage = .answered true →
    Publishes OWNER_DID HOSTNAME s (getOwnerDid OWNER_DID req.hostname) req.repoDid

/-- What a lookup finds is the hostname of the owner whom the request's hostname stands for. -/
def Own (req : Request) (found : Option String) : Prop :=
  ∀ spindle ∈ found,
    spindle = effectiveHostname OWNER_DID HOSTNAME (getOwnerDid OWNER_DID req.hostname)

/-- Owners who point at this spindle have no hyphen in their DID, and a repository that a
    request looks up is not recorded for another owner. -/
def Careful (s : State) : Event → Prop
  | .record ownerDid rec => matchesThisSpindle OWNER_DID HOSTNAME rec.spindle ownerDid →
      '-' ∉ ownerDid.toList
  | .request hostname repoDid =>
    Own OWNER_DID HOSTNAME ⟨hostname, repoDid, .first⟩ (s.cached repoDid)
  | .reply i version => ∀ req ∈ s.requests[i]?,
      Own OWNER_DID HOSTNAME req (s.stored HOSTNAME req.repoDid version)
  | .discovered i => ∀ req ∈ s.requests[i]?,
      Own OWNER_DID HOSTNAME req (s.cached req.repoDid)
  | .putRecord .. | .restart => True

instance (req : Request) (found : Option String) : Decidable (Own OWNER_DID HOSTNAME req found) :=
  inferInstanceAs (Decidable (∀ spindle ∈ found,
    spindle = effectiveHostname OWNER_DID HOSTNAME (getOwnerDid OWNER_DID req.hostname)))

instance (s : State) : ∀ e, Decidable (Careful OWNER_DID HOSTNAME s e)
  | .record ownerDid rec => inferInstanceAs (Decidable
      (matchesThisSpindle OWNER_DID HOSTNAME rec.spindle ownerDid = true → '-' ∉ ownerDid.toList))
  | .request hostname repoDid => inferInstanceAs (Decidable
      (Own OWNER_DID HOSTNAME ⟨hostname, repoDid, .first⟩ (s.cached repoDid)))
  | .reply i version => inferInstanceAs (Decidable (∀ req ∈ s.requests[i]?,
      Own OWNER_DID HOSTNAME req (s.stored HOSTNAME req.repoDid version)))
  | .discovered i => inferInstanceAs (Decidable (∀ req ∈ s.requests[i]?,
      Own OWNER_DID HOSTNAME req (s.cached req.repoDid)))
  | .putRecord .. | .restart => inferInstanceAs (Decidable True)

end

/-! ## What a hostname stands for -/

section
variable {HOSTNAME : String}

theorem toList_effectiveHostname (HOSTNAME did : String) :
    (effectiveHostname "" HOSTNAME did).toList =
      did.toList.map (fun c => if c = ':' then '-' else c) ++ '.' :: HOSTNAME.toList := by
  rw [effectiveHostname, if_neg (by decide), didToSubdomain, String.toList_append,
    String.toList_append, String.toList_ofList, List.append_assoc]
  rfl

/-- What is read back of a hostname: the DID up to its first dot, with colons for hyphens. -/
theorem toList_getOwnerDid (HOSTNAME did : String) :
    (getOwnerDid "" (effectiveHostname "" HOSTNAME did)).toList =
      (did.toList.takeWhile (· ≠ '.')).map fun c => if c = '-' then ':' else c := by
  have hread : ∀ cs : List Char, ((cs.map (fun c => if c = ':' then '-' else c) ++
      '.' :: HOSTNAME.toList).takeWhile (· ≠ '.')).map (fun c => if c = '-' then ':' else c) =
      (cs.takeWhile (· ≠ '.')).map fun c => if c = '-' then ':' else c := by
    intro cs
    induction cs with
    | nil => rfl
    | cons c cs ih =>
      rw [List.map_cons, List.cons_append]
      by_cases hdot : c = '.'
      · subst hdot
        rfl
      · have hkeep : (if c = ':' then '-' else c) ≠ '.' := by
          split_ifs
          · decide
          · exact hdot
        rw [List.takeWhile_cons_of_pos (p := fun c => decide (c ≠ '.')) (decide_eq_true hkeep),
          List.takeWhile_cons_of_pos (p := fun c => decide (c ≠ '.')) (decide_eq_true hdot),
          List.map_cons, List.map_cons, ih]
        congr 1
        by_cases hcolon : c = ':'
        · subst hcolon
          rfl
        · rw [if_neg hcolon]
  rw [getOwnerDid, if_neg (by decide), subdomainToDID, toList_effectiveHostname,
    String.toList_ofList]
  exact hread did.toList

/-- A DID is read back from its hostname exactly if it has no hyphen and no dot. -/
theorem getOwnerDid_effectiveHostname (HOSTNAME did : String) :
    getOwnerDid "" (effectiveHostname "" HOSTNAME did) = did ↔
      '-' ∉ did.toList ∧ '.' ∉ did.toList := by
  rw [← String.toList_inj, toList_getOwnerDid]
  constructor
  · intro h
    have hwhole : did.toList.takeWhile (· ≠ '.') = did.toList := by
      refine (List.takeWhile_prefix _).eq_of_length ?_
      rw [← List.length_map (f := fun c => if c = '-' then ':' else c), h]
    refine ⟨fun hhyphen => ?_, fun hdot => ?_⟩
    · rw [← h] at hhyphen
      obtain ⟨c, -, hc⟩ := List.mem_map.1 hhyphen
      split_ifs at hc with hc'
      · exact absurd hc (by decide)
      · exact hc' hc
    · rw [← hwhole] at hdot
      exact absurd (List.mem_takeWhile_imp hdot) (by decide)
  · rintro ⟨hhyphen, hdot⟩
    have hall : ∀ c ∈ did.toList, decide (c ≠ '.') := fun c hc =>
      decide_eq_true fun heq : c = '.' => hdot (heq ▸ hc)
    rw [List.takeWhile_eq_self_iff.2 hall]
    refine (List.map_congr_left fun c hc => ?_).trans (List.map_id _)
    exact if_neg fun heq : c = '-' => hhyphen (heq ▸ hc)

/-- What a hostname stands for has no hyphen. -/
theorem not_mem_getOwnerDid (hostname : String) : '-' ∉ (getOwnerDid "" hostname).toList := by
  rw [getOwnerDid, if_neg (by decide), subdomainToDID, String.toList_ofList, List.mem_map]
  rintro ⟨c, -, hc⟩
  split_ifs at hc with hc'
  · exact absurd hc (by decide)
  · exact hc' hc

/-- Two owners without a hyphen in their DIDs do not share a hostname. -/
theorem effectiveHostname_inj {did did' : String} (hdid : '-' ∉ did.toList)
    (hdid' : '-' ∉ did'.toList)
    (h : effectiveHostname "" HOSTNAME did = effectiveHostname "" HOSTNAME did') : did = did' := by
  have hback : ∀ cs : List Char, '-' ∉ cs →
      (cs.map fun c => if c = ':' then '-' else c).map (fun c => if c = '-' then ':' else c) = cs := by
    intro cs hcs
    rw [List.map_map]
    refine (List.map_congr_left fun c hc => ?_).trans (List.map_id _)
    dsimp only [Function.comp_apply]
    by_cases hcolon : c = ':'
    · subst hcolon
      rfl
    · rw [if_neg hcolon]
      exact if_neg fun heq : c = '-' => hcs (heq ▸ hc)
  rw [← String.toList_inj, toList_effectiveHostname, toList_effectiveHostname] at h
  rw [← String.toList_inj, ← hback _ hdid, ← hback _ hdid', List.append_cancel_right h]

/-! ## The steps -/

/-- What is recorded of a repository: the hostname of an owner who has published it. -/
def Recorded (HOSTNAME : String) (s : State) (repoDid spindle : String) : Prop :=
  ∃ ownerDid, '-' ∉ ownerDid.toList ∧ spindle = effectiveHostname "" HOSTNAME ownerDid ∧
    Publishes "" HOSTNAME s ownerDid repoDid

/-- A copy of a record, in a write or as it is stored. -/
def Copied (HOSTNAME : String) (s : State) (put : String × String) : Prop :=
  ∃ repoDid, put.1 = rkey HOSTNAME repoDid ∧ Recorded HOSTNAME s repoDid put.2

structure Inv (HOSTNAME : String) (s : State) : Prop where
  cached : ∀ repoDid spindle, s.repoDidToSpindle.lookup repoDid = some spindle →
    Recorded HOSTNAME s repoDid spindle
  puts : ∀ put ∈ s.puts, Copied HOSTNAME s put
  durable : ∀ put ∈ s.durable, Copied HOSTNAME s put
  authorized : Authorized "" HOSTNAME s

variable {s s' : State} {repoDid spindle : String}

theorem Publishes.mono (h : s.published ⊆ s'.published) {ownerDid : String}
    (hp : Publishes "" HOSTNAME s ownerDid repoDid) : Publishes "" HOSTNAME s' ownerDid repoDid := by
  obtain ⟨rec, hrec, hrepo, hspindle⟩ := hp
  exact ⟨rec, h hrec, hrepo, hspindle⟩

theorem Recorded.mono (h : s.published ⊆ s'.published) (hr : Recorded HOSTNAME s repoDid spindle) :
    Recorded HOSTNAME s' repoDid spindle := by
  obtain ⟨ownerDid, hhyphen, hspindle, hp⟩ := hr
  exact ⟨ownerDid, hhyphen, hspindle, hp.mono h⟩

theorem Copied.mono (h : s.published ⊆ s'.published) {put : String × String}
    (hc : Copied HOSTNAME s put) : Copied HOSTNAME s' put := by
  obtain ⟨repoDid, hkey, hr⟩ := hc
  exact ⟨repoDid, hkey, hr.mono h⟩

/-- What is recorded under the hostname that a request stands for is of its owner. -/
theorem Recorded.publishes {req : Request} {found : Option String}
    (hown : Own "" HOSTNAME req found) (hfound : found = some spindle)
    (hr : Recorded HOSTNAME s repoDid spindle) :
    Publishes "" HOSTNAME s (getOwnerDid "" req.hostname) repoDid := by
  obtain ⟨ownerDid, hhyphen, hspindle, hp⟩ := hr
  have hsame := hown spindle hfound
  rw [hspindle] at hsame
  exact effectiveHostname_inj hhyphen (not_mem_getOwnerDid req.hostname) hsame ▸ hp

theorem inv_initial : Inv HOSTNAME initial where
  cached _ _ h := by cases h
  puts _ h := absurd h List.not_mem_nil
  durable _ h := absurd h List.not_mem_nil
  authorized _ h := absurd h List.not_mem_nil

/-- A record that was seen is published. -/
theorem Inv.publish (h : Inv HOSTNAME s) (ownerDid : String) (rec : RepoRecord) :
    Inv HOSTNAME { s with published := s.published ++ [(ownerDid, rec)] } := by
  have hmono : s.published ⊆ s.published ++ [(ownerDid, rec)] := List.subset_append_left _ _
  exact ⟨fun repoDid spindle hl => (h.cached repoDid spindle hl).mono hmono,
    fun put hput => (h.puts put hput).mono hmono, fun put hput => (h.durable put hput).mono hmono,
    fun req hreq hstage => (h.authorized req hreq hstage).mono hmono⟩

/-- The cache takes what is recorded. -/
theorem Inv.setCached (h : Inv HOSTNAME s) (hr : Recorded HOSTNAME s repoDid spindle) :
    Inv HOSTNAME { s with repoDidToSpindle := set repoDid spindle s.repoDidToSpindle } := by
  refine ⟨fun repoDid' spindle' hl => ?_, h.puts, h.durable, h.authorized⟩
  dsimp only at hl
  rw [lookup_set] at hl
  split_ifs at hl with heq
  · subst heq
    obtain rfl := Option.some.inj hl
    exact hr
  · exact h.cached repoDid' spindle' hl

theorem Inv.seeRecord (h : Inv HOSTNAME s) {ownerDid : String} {rec : RepoRecord}
    (hcareful : Careful "" HOSTNAME s (.record ownerDid rec)) :
    Inv HOSTNAME (seeRecord "" HOSTNAME ownerDid rec s) := by
  have hpublish := h.publish ownerDid rec
  unfold Tenants.seeRecord
  dsimp only
  split
  · next repoDid spindle hrepo hspindle =>
    split_ifs with hmatches
    · have hspindle' : spindle = effectiveHostname "" HOSTNAME ownerDid := by
        have hm := hmatches.2.2
        rw [hspindle, matchesThisSpindle, if_neg (by decide), Bool.and_eq_true] at hm
        exact of_decide_eq_true hm.2
      have hr : Recorded HOSTNAME { s with published := s.published ++ [(ownerDid, rec)] }
          repoDid spindle :=
        ⟨ownerDid, hcareful hmatches.2.2, hspindle', rec,
          List.mem_append_right _ (List.mem_singleton_self _), hrepo, hspindle' ▸ hspindle⟩
      have hset := hpublish.setCached hr
      refine ⟨hset.cached, fun put hput => ?_, hset.durable, hset.authorized⟩
      rcases List.mem_append.1 hput with hput | hput
      · exact hset.puts put hput
      · rw [List.mem_singleton.1 hput]
        exact ⟨repoDid, rfl, hr⟩
    · exact hpublish
  · exact hpublish

theorem Inv.putRecord (h : Inv HOSTNAME s) (i : ℕ) (ok : Bool) :
    Inv HOSTNAME (step "" HOSTNAME s (.putRecord i ok)) := by
  dsimp only [step]
  split
  · exact h
  · next put hput =>
    refine ⟨h.cached, fun put' hput' => h.puts put' (List.mem_of_mem_eraseIdx hput'),
      fun put' hput' => ?_, h.authorized⟩
    dsimp only at hput'
    split_ifs at hput'
    · rcases List.mem_append.1 hput' with hput' | hput'
      · exact h.durable put' hput'
      · rw [List.mem_singleton.1 hput']
        exact h.puts put (List.mem_of_getElem? hput)
    · exact h.durable put' hput'

/-- A request goes on; when it is answered with yes, its owner has published the record. -/
theorem Inv.setStage (h : Inv HOSTNAME s) (i : ℕ) {req : Request} {stage : Stage}
    (hanswered : stage = .answered true →
      Publishes "" HOSTNAME s (getOwnerDid "" req.hostname) req.repoDid) :
    Inv HOSTNAME (s.setStage i req stage) := by
  refine ⟨h.cached, h.puts, h.durable, fun req' hreq' hstage => ?_⟩
  rcases List.mem_or_eq_of_mem_set hreq' with hreq' | rfl
  · exact h.authorized req' hreq' hstage
  · exact hanswered hstage

theorem recorded_of_cached (h : Inv HOSTNAME s) (hcached : s.cached repoDid = some spindle) :
    Recorded HOSTNAME s repoDid spindle :=
  h.cached repoDid spindle (Option.filter_eq_some_iff.1 hcached).1

theorem rkey_injective (HOSTNAME : String) : Function.Injective (rkey HOSTNAME) := by
  intro repoDid repoDid' h
  rw [rkey, rkey, ← String.toList_inj] at h
  simp only [String.toList_append] at h
  exact String.toList_inj.1 (List.append_cancel_left h)

theorem recorded_of_stored (h : Inv HOSTNAME s) {version : Option ℕ}
    (hstored : s.stored HOSTNAME repoDid version = some spindle) :
    Recorded HOSTNAME s repoDid spindle := by
  unfold State.stored at hstored
  split at hstored
  · next key spindle' hversion =>
    split_ifs at hstored with hkey
    obtain rfl := Option.some.inj hstored
    obtain ⟨n, -, hn⟩ := Option.bind_eq_some_iff.1 hversion
    obtain ⟨repoDid', hkey', hr⟩ := h.durable _ (List.mem_of_getElem? hn)
    exact rkey_injective HOSTNAME (hkey.1.symm.trans hkey') ▸ hr
  · cases hstored

theorem Inv.request (h : Inv HOSTNAME s) {hostname : String}
    (hcareful : Careful "" HOSTNAME s (.request hostname repoDid)) :
    Inv HOSTNAME (repoRegisteredToThisSpindle "" hostname repoDid s) := by
  refine ⟨h.cached, h.puts, h.durable, fun req hreq hstage => ?_⟩
  rcases List.mem_append.1 hreq with hreq | hreq
  · exact h.authorized req hreq hstage
  · obtain rfl := List.mem_singleton.1 hreq
    dsimp only at hstage
    split_ifs at hstage with hdid hcached
    obtain ⟨spindle, hcached⟩ := Option.isSome_iff_exists.1 hcached
    exact (recorded_of_cached h hcached).publishes hcareful hcached

theorem Inv.reply (h : Inv HOSTNAME s) {i : ℕ} {version : Option ℕ} {req : Request}
    (hown : Own "" HOSTNAME req (s.stored HOSTNAME req.repoDid version)) :
    Inv HOSTNAME (reply HOSTNAME i version req s) := by
  have hfound : Inv HOSTNAME (match s.stored HOSTNAME req.repoDid version with
      | some spindle => { s with
          repoDidToSpindle := set req.repoDid spindle s.repoDidToSpindle }.setStage i req
          (.answered true)
      | none => s.setStage i req
          (if req.stage = .first then .discovering else .answered false)) := by
    split
    · next spindle hstored =>
      have hr := recorded_of_stored h hstored
      exact (h.setCached hr).setStage i fun _ => hr.publishes hown hstored
    · refine h.setStage i fun hstage => ?_
      split_ifs at hstage
      cases hstage
  unfold Tenants.reply
  split
  · exact hfound
  · exact hfound
  · exact h

theorem Inv.discovered (h : Inv HOSTNAME s) {i : ℕ} {req : Request}
    (hown : Own "" HOSTNAME req (s.cached req.repoDid)) :
    Inv HOSTNAME (discovered i req s) := by
  unfold Tenants.discovered
  split
  · refine h.setStage i fun hstage => ?_
    split_ifs at hstage with hcached
    · obtain ⟨spindle, hcached⟩ := Option.isSome_iff_exists.1 hcached
      exact (recorded_of_cached h hcached).publishes hown hcached
  · exact h

theorem inv_step (h : Inv HOSTNAME s) {e : Event} (hcareful : Careful "" HOSTNAME s e) :
    Inv HOSTNAME (step "" HOSTNAME s e) := by
  cases e with
  | record ownerDid rec => exact h.seeRecord hcareful
  | putRecord i ok => exact h.putRecord i ok
  | request hostname repoDid => exact h.request hcareful
  | reply i version =>
    dsimp only [step]
    split
    · exact h
    · next req hreq => exact h.reply (hcareful req hreq)
  | discovered i =>
    dsimp only [step]
    split
    · exact h
    · next req hreq => exact h.discovered (hcareful req hreq)
  | restart =>
    exact ⟨fun _ _ hl => absurd hl nofun, fun _ hput => absurd hput List.not_mem_nil,
      h.durable, fun _ hreq => absurd hreq List.not_mem_nil⟩

/-- A hostname stands for the owner it was made for exactly if their DID has no hyphen and no
    dot, two owners without a hyphen in their DIDs share none, and a repository is registered
    for the owner who published it, in every run where it was recorded for no other. -/
theorem authorized_of_own (HOSTNAME : String) :
    (∀ did, getOwnerDid "" (effectiveHostname "" HOSTNAME did) = did ↔
      '-' ∉ did.toList ∧ '.' ∉ did.toList) ∧
    (∀ did did', '-' ∉ did.toList → '-' ∉ did'.toList →
      effectiveHostname "" HOSTNAME did = effectiveHostname "" HOSTNAME did' → did = did') ∧
    ∀ events, Along (step "" HOSTNAME) (Careful "" HOSTNAME) initial events →
      Along (step "" HOSTNAME) (fun s e => Authorized "" HOSTNAME (step "" HOSTNAME s e)) initial
        events := by
  refine ⟨getOwnerDid_effectiveHostname HOSTNAME, fun _ _ => effectiveHostname_inj,
    fun events h => ?_⟩
  have hstep : ∀ s e, Inv HOSTNAME s → Careful "" HOSTNAME s e →
      Authorized "" HOSTNAME (step "" HOSTNAME s e) ∧ Inv HOSTNAME (step "" HOSTNAME s e) := by
    intro s e hs he
    have hnext := inv_step hs he
    exact ⟨hnext.authorized, hnext⟩
  exact along_of_inv hstep inv_initial h

end

/-! ## Two tenants -/

/-- Alice points her repository at her hostname. -/
def sampleRecord : Event :=
  .record "did:plc:alice" ⟨some "did-plc-alice.spindle.example", some "did:plc:repo"⟩

theorem authorized_sample : Along (step "" "spindle.example")
    (fun s e => Authorized "" "spindle.example" (step "" "spindle.example" s e)) initial
    [sampleRecord, .putRecord 0 true, .restart,
      .request "did-plc-alice.spindle.example" "did:plc:repo", .reply 0 (some 0)] :=
  (authorized_of_own "spindle.example").2.2 _ (by decide +kernel)

/-- Bob asks under his hostname for the repository of Alice, and the domain of a `did:web` is
    cut off when its hostname is read. -/
theorem not_authorized : (∃ domain, getOwnerDid "" (effectiveHostname "" "spindle.example"
      ("did:web:" ++ domain)) ≠ "did:web:" ++ domain) ∧
    ¬ ∀ HOSTNAME events, Along (step "" HOSTNAME) (fun s e =>
      Authorized "" HOSTNAME (step "" HOSTNAME s e)) initial events := by
  refine ⟨⟨"example.com", by decide +kernel⟩, fun hall => ?_⟩
  have hrun := hall "spindle.example"
    [sampleRecord, .request "did-plc-bob.spindle.example" "did:plc:repo"]
  obtain ⟨rec, hrec, -, -⟩ := hrun.2.1 ⟨"did-plc-bob.spindle.example", "did:plc:repo",
    .answered true⟩ (by decide +kernel) rfl
  have howner : ∀ e ∈ (step "" "spindle.example" initial sampleRecord).published,
      e.1 ≠ getOwnerDid "" "did-plc-bob.spindle.example" := by
    decide +kernel
  exact howner _ hrec rfl

end ComputeContract.Spindle.Tenants
