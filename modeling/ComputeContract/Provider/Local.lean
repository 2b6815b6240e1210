import ComputeContract.Lib.TaskState
import ComputeContract.Rbac.Record

/-!
# The local compute provider

`provision` mints a grant in the provider's repository, registers the droplet, makes a nonce for
it and starts its container; `destroy` revokes the grant, removes the container and forgets the
droplet. Each call is a task over what the provider has, given what comes of its outside steps.

* `Clean`: a call leaves everything or nothing.
* `clean_iff`: when it does.
-/

namespace ComputeContract.Provider

open AssocList

/-! ## Data -/

structure StrongRef where
  uri : String
  cid : String
  deriving DecidableEq

/-- The fields of a spec that are read. -/
structure VM where
  role : String
  userData : Option String
  /-- `_uri` -/
  uri : Option String
  deriving DecidableEq

inductive ProviderId
  | number (n : ℕ)
  | text (s : String)
  deriving DecidableEq

/-- `String(id)` -/
def ProviderId.name : ProviderId → String
  | .number n => toString n
  | .text s => s

structure LocalDroplet where
  id : String
  /-- The addresses of `networks.v4`, all of type `public`. -/
  v4 : List String
  tags : List String
  containerName : Option String
  deriving DecidableEq

inductive Mode
  | container
  | vm
  deriving DecidableEq

structure Metadata where
  containerName : String
  ip : String
  mode : Mode
  sshReady : Bool
  deriving DecidableEq

structure ProvisionResult where
  providerId : ProviderId
  metadata : Metadata
  deriving DecidableEq

/-- What the provider is built from. -/
structure Config where
  agentDid : String
  issuerUrl : String
  containerMode : Mode
  /-- Whether there is a `deleteRecord`. -/
  deleteRecord : Bool
  /-- The collection and the key of a URI. -/
  parseAtUri : String → Except String (String × String)

structure State where
  /-- The grants in the repository. -/
  records : List (StrongRef × RBACRecord)
  droplets : List (String × LocalDroplet)
  nonces : List (String × String)
  /-- The containers that run, with their user data. -/
  running : List (String × String)
  rbacByProvider : List (ProviderId × StrongRef)

/-! ## Names -/

/-- `s.split(c)` -/
def splitAt (c : Char) (s : String) : List String := (s.toList.splitOn c).map String.ofList

/-- The last segment of a DID. -/
def lastSegment (did : String) : String := ((splitAt ':' did).getLast?).getD ""

/-- What the grant allows. -/
def subjectOf (agentDid requesterDid role : String) : String :=
  "actx:" ++ lastSegment agentDid ++ ":plc:" ++ lastSegment requesterDid ++ ":role:" ++ role

def tagsOf (requesterDid role : String) : List String :=
  ["oidc-sub:plc:" ++ lastSegment requesterDid, "oidc-sub:role:" ++ role]

def containerNameOf (vm : VM) (requesterDid uuid : String) : String :=
  let rfpRkey := ((splitAt '/' (vm.uri.getD ""))[4]?).getD "unknown"
  "pdr-" ++ lastSegment requesterDid ++ "-" ++ rfpRkey ++ "-" ++ uuid

def rbacRecord (cfg : Config) (vm : VM) (requesterDid : String) : RBACRecord :=
  let roleName := "ex-" ++ lastSegment cfg.agentDid ++ "-" ++ lastSegment requesterDid ++ "-" ++
    vm.role
  let subject := subjectOf cfg.agentDid requesterDid vm.role
  { protects := [(roleName, ⟨cfg.issuerUrl, some "droplets.wid"⟩)]
    policies := [(roleName,
      { schemas := [("/v1/oidc/issue",
          { capability := ["create"]
            allowedParameters := [("aud", ⟨some "string", none⟩),
              ("sub", ⟨some "string", some (.string subject)⟩),
              ("ttl", ⟨some "number", some (.number 3600)⟩)] })]
        schemas_nodup := List.nodup_singleton _ })]
    roles := [(roleName, ⟨⟨none, subject, [roleName]⟩⟩)]
    policies_nodup := List.nodup_singleton _
    roles_nodup := List.nodup_singleton _ }

/-! ## Provisioning -/

/-- What comes of the steps of a call of `provision`. -/
structure Outcomes where
  /-- `shortUuid()` -/
  uuid : String
  /-- The cache directory. -/
  mkdir : Except String Unit
  createRecord : Except String StrongRef
  /-- `ProvisioningData.create`: a nonce, and the user data with the exchange in it. -/
  provisioningData : Except String (String × String)
  /-- The image is there, or is built or pulled. -/
  image : Except String Unit
  /-- The files that are mounted. -/
  files : Except String Unit
  /-- Whether `docker rm -f` removes a container of the same name. -/
  removes : Bool
  /-- The exit code and the errors of `docker run`. -/
  run : ℕ × String
  /-- `dockerInspectIp` -/
  inspect : Except String String
  /-- `pollSsh` -/
  sshReady : Bool

section
variable (cfg : Config) (o : Outcomes) (vm : VM) (requesterDid : String)

def configureRbac : Task State String StrongRef := do
  let rbacRef ← Task.ofExcept o.createRecord
  Task.modify fun s => { s with records := s.records ++ [(rbacRef, rbacRecord cfg vm requesterDid)] }
  pure rbacRef

def setDroplet (droplet : LocalDroplet) : Task State String Unit :=
  Task.modify fun s => { s with droplets := set droplet.id droplet s.droplets }

def associateWithDroplet (nonce dropletId : String) : Task State String Unit :=
  if dropletId = "" then pure ()
  else Task.modify fun s => { s with nonces := set nonce dropletId s.nonces }

/-- `runContainer` and `provisionVM` up to the container, with what is thrown if it fails. -/
def dockerRun (name userData : String) (failed : ℕ → String → String) :
    Task State String Unit := do
  Task.ofExcept o.image
  Task.ofExcept o.files
  Task.modify fun s =>
    { s with running := if o.removes then s.running.filter (·.1 ≠ name) else s.running }
  if o.run.1 ≠ 0 then Task.throw (failed o.run.1 o.run.2)
  else Task.modify fun s => { s with running := s.running ++ [(name, userData)] }

/-- `runContainer`; `onIp` is told the address before the container is waited for. -/
def runContainer (name userData : String) (onIp : String → Task State String Unit) :
    Task State String String := do
  dockerRun o name userData fun code stderr =>
    "docker run failed for " ++ name ++ " (exit " ++ toString code ++ "): " ++ stderr
  let ip ← Task.ofExcept o.inspect
  onIp ip
  -- The container is left for debugging.
  if o.sshReady then pure ip
  else Task.throw ("SSH not ready within timeout for " ++ name ++ " (ip=" ++ ip ++ ")")

/-- `provisionVM`; a missing address and a VM that does not answer are only logged. -/
def provisionVM (name userData : String) : Task State String (String × Bool) := do
  dockerRun o name userData fun _ stderr => "docker run failed for " ++ name ++ ": " ++ stderr
  pure ((o.inspect.toOption).getD "0.0.0.0", o.sshReady)

def provisionLocal : Task State String (ProvisionResult × StrongRef) := do
  let name := containerNameOf vm requesterDid o.uuid
  let droplet : LocalDroplet := ⟨name, [], tagsOf requesterDid vm.role, none⟩
  let located (ip : String) := setDroplet { droplet with v4 := [ip], containerName := some name }
  Task.ofExcept o.mkdir
  let rbacRef ← configureRbac cfg o vm requesterDid
  setDroplet droplet
  let (nonce, userData) ← Task.ofExcept o.provisioningData
  associateWithDroplet nonce name
  match cfg.containerMode with
  | .container =>
    let ip ← runContainer o name userData located
    located ip
    pure (⟨.text name, ⟨name, ip, .container, true⟩⟩, rbacRef)
  | .vm =>
    let (ip, sshReady) ← provisionVM o name userData
    located ip
    pure (⟨.text name, ⟨name, ip, .vm, sshReady⟩⟩, rbacRef)

/-- The adapter: the grant is recorded for `destroy`. -/
def provision : Task State String ProvisionResult := do
  let (result, rbacRef) ← provisionLocal cfg o vm requesterDid
  Task.modify fun s =>
    { s with rbacByProvider := set result.providerId rbacRef s.rbacByProvider }
  pure result

end

/-! ## Destroying -/

/-- What comes of the steps of a call of `destroy`. -/
structure DestroyOutcomes where
  deleteRecord : Except String Unit
  /-- Whether `docker kill` or `docker rm -f` stops the container. -/
  stops : Bool

section
variable (cfg : Config) (o : DestroyOutcomes)

/-- `deleteRecord`, of the records with this collection and key. -/
def State.deleteRecord (at' : String × String) (s : State) : State :=
  { s with records := s.records.filter fun r => (cfg.parseAtUri r.1.uri).toOption ≠ some at' }

/-- A grant that cannot be deleted is only logged. -/
def deleteRbacRecord (rbacRef : StrongRef) : Task State String Unit :=
  if cfg.deleteRecord then do
    let at' ← Task.ofExcept (cfg.parseAtUri rbacRef.uri)
    match o.deleteRecord with
    | .ok () => Task.modify (State.deleteRecord cfg at')
    | .error _ => pure ()
  else pure ()

def destroyLocal (id : ProviderId) : Task State String Unit :=
  Task.modify fun s =>
    { s with
      running := if o.stops then s.running.filter (·.1 ≠ id.name) else s.running
      droplets := erase id.name s.droplets }

/-- The grant that was recorded is revoked. -/
def revoke (id : ProviderId) : Task State String Unit := fun s =>
  match s.rbacByProvider.lookup id with
  | some rbacRef => (do
    deleteRbacRecord cfg o rbacRef
    Task.modify fun s => { s with rbacByProvider := erase id s.rbacByProvider }) s
  | none => (.ok (), s)

/-- The adapter. -/
def destroy (id : ProviderId) : Task State String Unit := do
  revoke cfg o id
  destroyLocal o id

end

/-! ## All or nothing -/

/-- The grant that a call minted is recorded, or the call has left nothing. -/
def AllOrNothing (cfg : Config) (vm : VM) (requesterDid : String) (s : State) :
    Outcome String ProvisionResult × State → Prop
  | (.ok result, s') => ∃ rbacRef, s'.rbacByProvider.lookup result.providerId = some rbacRef ∧
      (rbacRef, rbacRecord cfg vm requesterDid) ∈ s'.records
  | (_, s') => s'.records = s.records ∧ s'.droplets = s.droplets ∧ s'.nonces = s.nonces ∧
      s'.running = s.running

/-- Nothing of the container is left. -/
structure Gone (id : ProviderId) (s s' : State) : Prop where
  records : ∀ rbacRef, s.rbacByProvider.lookup id = some rbacRef →
    ∀ record, (rbacRef, record) ∉ s'.records
  droplets : s'.droplets.lookup id.name = none
  nonces : ∀ nonce, (nonce, id.name) ∉ s'.nonces
  running : id.name ∉ keys s'.running

/-- A call, with what comes of its steps. -/
inductive Call
  | provision (o : Outcomes) (vm : VM) (requesterDid : String)
  | destroy (o : DestroyOutcomes) (id : ProviderId)

def Clean (cfg : Config) (s : State) : Call → Prop
  | .provision o vm requesterDid =>
    AllOrNothing cfg vm requesterDid s (provision cfg o vm requesterDid s)
  | .destroy o id => Gone id s (destroy cfg o id s).2

/-- The steps after the grant all work. -/
structure Starts (cfg : Config) (o : Outcomes) : Prop where
  provisioningData : ∃ data, o.provisioningData = .ok data
  image : ∃ u, o.image = .ok u
  files : ∃ u, o.files = .ok u
  run : o.run.1 = 0
  address : cfg.containerMode = .container → (∃ ip, o.inspect = .ok ip) ∧ o.sshReady

/-- The grant is revoked, the nonce is used, and the container stops, if they are there. -/
structure Revokes (cfg : Config) (s : State) (o : DestroyOutcomes) (id : ProviderId) : Prop where
  /-- The URI of the grant is read before anything is removed. -/
  reached : ∀ rbacRef, s.rbacByProvider.lookup id = some rbacRef → cfg.deleteRecord →
    (∃ at', cfg.parseAtUri rbacRef.uri = .ok at') ∨
      s.droplets.lookup id.name = none ∧ id.name ∉ keys s.running
  records : ∀ rbacRef, s.rbacByProvider.lookup id = some rbacRef →
    (∃ record, (rbacRef, record) ∈ s.records) → cfg.deleteRecord ∧ o.deleteRecord = .ok () ∧
      ∃ at', cfg.parseAtUri rbacRef.uri = .ok at'
  nonces : ∀ nonce, (nonce, id.name) ∉ s.nonces
  running : id.name ∈ keys s.running → o.stops

/-- What a call needs so as to be clean. -/
def Sound (cfg : Config) (s : State) : Call → Prop
  | .provision o _ _ => (∃ u, o.mkdir = .ok u) → (∃ rbacRef, o.createRecord = .ok rbacRef) →
      Starts cfg o
  | .destroy o id => Revokes cfg s o id

/-! ## A call of `provision` -/

section
variable {cfg : Config} {o : Outcomes} {vm : VM} {requesterDid : String} {s : State}

theorem keeps_setDroplet (droplet : LocalDroplet) :
    Task.Keeps State.records (setDroplet droplet) := .modify fun _ => rfl

theorem keeps_associateWithDroplet (nonce dropletId : String) :
    Task.Keeps State.records (associateWithDroplet nonce dropletId) := by
  unfold associateWithDroplet
  split_ifs
  · exact .pure _
  · exact .modify fun _ => rfl

theorem keeps_dockerRun (name userData : String) (failed : ℕ → String → String) :
    Task.Keeps State.records (dockerRun o name userData failed) := by
  refine (Task.Keeps.ofExcept _).bind fun _ => (Task.Keeps.ofExcept _).bind fun _ =>
    .bind ?_ fun _ => ?_
  · exact .modify fun _ => rfl
  · split_ifs
    · exact .throw _
    · exact .modify fun _ => rfl

theorem keeps_runContainer (name userData : String) {onIp : String → Task State String Unit}
    (honIp : ∀ ip, Task.Keeps State.records (onIp ip)) :
    Task.Keeps State.records (runContainer o name userData onIp) := by
  refine (keeps_dockerRun _ _ _).bind fun _ => (Task.Keeps.ofExcept _).bind fun ip =>
    (honIp ip).bind fun _ => ?_
  split_ifs
  · exact .pure _
  · exact .throw _

/-- `provisionLocal` once the grant is minted. -/
def startDroplet (cfg : Config) (o : Outcomes) (vm : VM) (requesterDid : String)
    (rbacRef : StrongRef) : Task State String (ProvisionResult × StrongRef) := do
  let name := containerNameOf vm requesterDid o.uuid
  let droplet : LocalDroplet := ⟨name, [], tagsOf requesterDid vm.role, none⟩
  let located (ip : String) := setDroplet { droplet with v4 := [ip], containerName := some name }
  setDroplet droplet
  let (nonce, userData) ← Task.ofExcept o.provisioningData
  associateWithDroplet nonce name
  match cfg.containerMode with
  | .container =>
    let ip ← runContainer o name userData located
    located ip
    pure (⟨.text name, ⟨name, ip, .container, true⟩⟩, rbacRef)
  | .vm =>
    let (ip, sshReady) ← provisionVM o name userData
    located ip
    pure (⟨.text name, ⟨name, ip, .vm, sshReady⟩⟩, rbacRef)

theorem provisionLocal_eq : provisionLocal cfg o vm requesterDid = (do
    Task.ofExcept o.mkdir
    let rbacRef ← configureRbac cfg o vm requesterDid
    startDroplet cfg o vm requesterDid rbacRef) := rfl

/-- What is left of a call whose grant is minted: its grant, whatever comes of the rest. -/
theorem keeps_startDroplet (rbacRef : StrongRef) :
    Task.Keeps State.records (startDroplet cfg o vm requesterDid rbacRef) := by
  refine (keeps_setDroplet _).bind fun _ => (Task.Keeps.ofExcept _).bind fun _ =>
    (keeps_associateWithDroplet _ _).bind fun _ => ?_
  cases cfg.containerMode with
  | container =>
    exact (keeps_runContainer _ _ fun _ => keeps_setDroplet _).bind fun _ =>
      (keeps_setDroplet _).bind fun _ => .pure _
  | vm =>
    exact ((keeps_dockerRun _ _ _).bind fun _ => .pure _).bind fun _ =>
      (keeps_setDroplet _).bind fun _ => .pure _

theorem returns_associateWithDroplet (nonce dropletId : String) :
    Task.Returns True (associateWithDroplet nonce dropletId) := by
  unfold associateWithDroplet
  split_ifs
  · exact .pure _
  · exact .modify _

theorem returns_dockerRun (name userData : String) (failed : ℕ → String → String) :
    Task.Returns ((∃ u, o.image = .ok u) ∧ (∃ u, o.files = .ok u) ∧ o.run.1 = 0)
      (dockerRun o name userData failed) := by
  refine ((Task.Returns.ofExcept o.image).bind fun _ => (Task.Returns.ofExcept o.files).bind
    fun _ => (Task.Returns.modify _).bind (Q := o.run.1 = 0) fun _ => ?_).congr (by rw [true_and])
  split_ifs with hrun
  · exact (Task.Returns.throw _).congr (iff_of_false id hrun)
  · exact (Task.Returns.modify _).congr (iff_of_true trivial (not_not.1 hrun))

theorem returns_runContainer (name userData : String) {onIp : String → Task State String Unit}
    (honIp : ∀ ip, Task.Returns True (onIp ip)) :
    Task.Returns (((∃ u, o.image = .ok u) ∧ (∃ u, o.files = .ok u) ∧ o.run.1 = 0) ∧
      (∃ ip, o.inspect = .ok ip) ∧ o.sshReady) (runContainer o name userData onIp) := by
  refine ((returns_dockerRun _ _ _).bind fun _ => (Task.Returns.ofExcept o.inspect).bind fun ip =>
    (honIp ip).bind (Q := o.sshReady) fun _ => ?_).congr (by rw [true_and])
  split_ifs with hready
  · exact (Task.Returns.pure _).congr (iff_of_true trivial hready)
  · exact (Task.Returns.throw _).congr (iff_of_false id hready)

/-- The rest of the call returns if all of its steps work. -/
theorem returns_startDroplet (rbacRef : StrongRef) :
    Task.Returns (Starts cfg o) (startDroplet cfg o vm requesterDid rbacRef) := by
  let Address : Prop := cfg.containerMode = .container → (∃ ip, o.inspect = .ok ip) ∧ o.sshReady
  have hset (droplet : LocalDroplet) : Task.Returns True (setDroplet droplet) := .modify _
  refine ((hset _).bind fun _ => (Task.Returns.ofExcept o.provisioningData).bind fun _ =>
    (returns_associateWithDroplet _ _).bind
      (Q := ((∃ u, o.image = .ok u) ∧ (∃ u, o.files = .ok u) ∧ o.run.1 = 0) ∧ Address)
      fun _ => ?_).congr ?_
  · cases hmode : cfg.containerMode with
    | container =>
      refine ((returns_runContainer _ _ fun _ => hset _).bind fun _ => (hset _).bind fun _ =>
        .pure _).congr ?_
      simp [Address, hmode]
    | vm =>
      refine (((returns_dockerRun _ _ _).bind fun _ => .pure _).bind fun _ => (hset _).bind fun _ =>
        .pure _).congr ?_
      simp [Address, hmode]
  · constructor
    · rintro ⟨-, hdata, -, ⟨himage, hfiles, hrun⟩, haddress⟩
      exact ⟨hdata, himage, hfiles, hrun, haddress⟩
    · rintro ⟨hdata, himage, hfiles, hrun, haddress⟩
      exact ⟨trivial, hdata, trivial, ⟨himage, hfiles, hrun⟩, haddress⟩

/-- The grant that the rest of a call returns is that of the call. -/
theorem startDroplet_eq_ok {rbacRef ref : StrongRef} {result : ProvisionResult} {s' : State}
    (h : startDroplet cfg o vm requesterDid rbacRef s = (.ok (result, ref), s')) : ref = rbacRef := by
  obtain ⟨agentDid, issuerUrl, mode, deleteRecord, parseAtUri⟩ := cfg
  obtain ⟨_, _, -, h⟩ := Task.bind_eq_ok h
  obtain ⟨_, _, -, h⟩ := Task.bind_eq_ok h
  obtain ⟨_, _, -, h⟩ := Task.bind_eq_ok h
  cases mode
  all_goals
    obtain ⟨_, _, -, h⟩ := Task.bind_eq_ok h
    obtain ⟨_, _, -, h⟩ := Task.bind_eq_ok h
    cases h
    rfl

/-- The end of `provision`. -/
def recordGrant (p : ProvisionResult × StrongRef) : Task State String ProvisionResult := do
  Task.modify fun s => { s with rbacByProvider := set p.1.providerId p.2 s.rbacByProvider }
  pure p.1

theorem returns_recordGrant (p : ProvisionResult × StrongRef) :
    Task.Returns True (recordGrant p) :=
  ((Task.Returns.modify _).bind fun _ => .pure _).congr (and_self_iff)

theorem keeps_recordGrant (p : ProvisionResult × StrongRef) :
    Task.Keeps State.records (recordGrant p) :=
  .bind (.modify fun _ => rfl) fun _ => .pure _

def granted (cfg : Config) (vm : VM) (requesterDid : String) (s : State) (rbacRef : StrongRef) :
    State :=
  { s with records := s.records ++ [(rbacRef, rbacRecord cfg vm requesterDid)] }

theorem provision_of_granted {u : Unit} {rbacRef : StrongRef} (hmkdir : o.mkdir = .ok u)
    (hcreate : o.createRecord = .ok rbacRef) :
    provision cfg o vm requesterDid s =
      (startDroplet cfg o vm requesterDid rbacRef >>= recordGrant)
        (granted cfg vm requesterDid s rbacRef) := by
  unfold provision
  rw [provisionLocal_eq, configureRbac, hmkdir, hcreate]
  rfl

theorem provision_of_error {err : String}
    (herror : o.mkdir = .error err ∨ (∃ u, o.mkdir = .ok u) ∧ o.createRecord = .error err) :
    provision cfg o vm requesterDid s = (.error err, s) := by
  unfold provision
  rw [provisionLocal_eq, configureRbac]
  rcases herror with hmkdir | ⟨⟨u, hmkdir⟩, hcreate⟩
  · rw [hmkdir]
    rfl
  · rw [hmkdir, hcreate]
    rfl

theorem clean_granted {rbacRef : StrongRef} :
    AllOrNothing cfg vm requesterDid s
      ((startDroplet cfg o vm requesterDid rbacRef >>= recordGrant)
        (granted cfg vm requesterDid s rbacRef)) ↔ Starts cfg o := by
  let x := startDroplet cfg o vm requesterDid rbacRef >>= recordGrant
  let t := granted cfg vm requesterDid s rbacRef
  have hkeeps : (x t).2.records = s.records ++ [(rbacRef, rbacRecord cfg vm requesterDid)] :=
    ((keeps_startDroplet rbacRef).bind keeps_recordGrant) t
  have hreturns : (x t).1.Returned ↔ Starts cfg o ∧ True :=
    ((returns_startDroplet rbacRef).bind returns_recordGrant) t
  rw [and_true] at hreturns
  change AllOrNothing cfg vm requesterDid s (x t) ↔ _
  have hnot : (x t).2.records ≠ s.records := by
    rw [hkeeps]
    exact fun h => by simpa using congrArg List.length h
  rw [← hreturns]
  rcases hx : x t with ⟨r, s'⟩
  rw [hx] at hkeeps hnot
  cases r with
  | ok result =>
    refine iff_of_true ?_ ⟨result, rfl⟩
    obtain ⟨⟨result', ref⟩, u, hstart, hrecord⟩ := Task.bind_eq_ok hx
    obtain rfl := startDroplet_eq_ok hstart
    cases hrecord
    refine ⟨ref, ?_, ?_⟩
    · exact (lookup_set _ _ _ _).trans (if_pos rfl)
    · exact hkeeps ▸ List.mem_append_right _ (List.mem_singleton.2 rfl)
  | error err => exact iff_of_false (fun h => hnot h.1) nofun
  | running => exact iff_of_false (fun h => hnot h.1) nofun

theorem clean_provision : AllOrNothing cfg vm requesterDid s (provision cfg o vm requesterDid s) ↔
    ((∃ u, o.mkdir = .ok u) → (∃ rbacRef, o.createRecord = .ok rbacRef) → Starts cfg o) := by
  cases hmkdir : o.mkdir with
  | error err =>
    rw [provision_of_error (.inl hmkdir)]
    exact iff_of_true ⟨rfl, rfl, rfl, rfl⟩ fun ⟨u, hu⟩ => nomatch hu
  | ok u =>
    cases hcreate : o.createRecord with
    | error err =>
      rw [provision_of_error (.inr ⟨⟨u, hmkdir⟩, hcreate⟩)]
      exact iff_of_true ⟨rfl, rfl, rfl, rfl⟩ fun _ ⟨r, hr⟩ => nomatch hr
    | ok rbacRef =>
      rw [provision_of_granted hmkdir hcreate, clean_granted]
      exact ⟨fun h _ _ => h, fun h => h ⟨u, rfl⟩ ⟨rbacRef, rfl⟩⟩

end

/-! ## A call of `destroy` -/

section
variable {cfg : Config} {o : DestroyOutcomes} {id : ProviderId} {s t : State}

theorem gone_destroyLocal : Gone id s (destroyLocal o id t).2 ↔
    (∀ rbacRef, s.rbacByProvider.lookup id = some rbacRef → ∀ record, (rbacRef, record) ∉ t.records) ∧
      (∀ nonce, (nonce, id.name) ∉ t.nonces) ∧ (id.name ∈ keys t.running → o.stops) := by
  constructor
  · refine fun h => ⟨h.records, h.nonces, fun hmem => ?_⟩
    by_contra hstops
    exact h.running (by simpa only [destroyLocal, Task.modify, if_neg hstops] using hmem)
  · rintro ⟨hrecords, hnonces, hrunning⟩
    refine ⟨hrecords, (lookup_erase _ _ _).trans (if_pos rfl), hnonces, fun hmem => ?_⟩
    by_cases hstops : o.stops
    · simp only [destroyLocal, Task.modify, if_pos hstops] at hmem
      obtain ⟨v, hv⟩ := mem_keys.1 hmem
      exact of_decide_eq_true (List.mem_filter.1 hv).2 rfl
    · simp only [destroyLocal, Task.modify, if_neg hstops] at hmem
      exact hstops (hrunning hmem)

/-- `destroy` once the grant is dealt with: `records` are left. -/
theorem gone_of_revoke (records : List (StrongRef × RBACRecord)) {rbacRef : StrongRef}
    (hlookup : s.rbacByProvider.lookup id = some rbacRef)
    (hrevoke : deleteRbacRecord cfg o rbacRef s = (.ok (), { s with records := records })) :
    Gone id s (destroy cfg o id s).2 ↔ (∀ record, (rbacRef, record) ∉ records) ∧
      (∀ nonce, (nonce, id.name) ∉ s.nonces) ∧ (id.name ∈ keys s.running → o.stops) := by
  have hdestroy : destroy cfg o id s = destroyLocal o id
      { s with records := records, rbacByProvider := erase id s.rbacByProvider } := by
    refine Task.bind_of_ok (a := ()) ?_
    rw [revoke, hlookup]
    exact Task.bind_of_ok hrevoke
  rw [hdestroy, gone_destroyLocal, hlookup]
  exact and_congr_left' ⟨fun h => h rbacRef rfl, fun h _ heq => Option.some.inj heq ▸ h⟩

/-- The grant is revoked, or its URI cannot be read. -/
theorem gone_destroy : Gone id s (destroy cfg o id s).2 ↔ Revokes cfg s o id := by
  cases hlookup : s.rbacByProvider.lookup id with
  | none =>
    have hdestroy : destroy cfg o id s = destroyLocal o id s :=
      Task.bind_of_ok (a := ()) (by rw [revoke, hlookup])
    rw [hdestroy, gone_destroyLocal, hlookup]
    exact ⟨fun h => ⟨fun _ hr => (nomatch hlookup.symm.trans hr),
      fun _ hr => (nomatch hlookup.symm.trans hr), h.2.1, h.2.2⟩,
      fun h => ⟨nofun, h.nonces, h.running⟩⟩
  | some rbacRef =>
    have hsome {r} (hr : s.rbacByProvider.lookup id = some r) : r = rbacRef :=
      Option.some.inj (hr.symm.trans hlookup)
    by_cases hdelete : cfg.deleteRecord
    · cases hparse : cfg.parseAtUri rbacRef.uri with
      | error err =>
        -- Nothing is removed.
        have hdestroy : destroy cfg o id s = (.error err, s) := by
          refine Task.bind_of_error ?_
          rw [revoke, hlookup]
          refine Task.bind_of_error ?_
          rw [deleteRbacRecord, if_pos hdelete, hparse]
          rfl
        rw [hdestroy]
        constructor
        · rintro ⟨hrecords, hdroplets, hnonces, hrunning⟩
          refine ⟨fun _ _ _ => .inr ⟨hdroplets, hrunning⟩, ?_, hnonces, fun h => absurd h hrunning⟩
          rintro r hr ⟨record, hmem⟩
          exact absurd hmem (hrecords r hr record)
        · rintro ⟨hreached, hrecords, hnonces, -⟩
          obtain ⟨_, hat⟩ | ⟨hdroplets, hrunning⟩ := hreached rbacRef hlookup hdelete
          · cases hparse.symm.trans hat
          · refine ⟨fun r hr record hmem => ?_, hdroplets, hnonces, hrunning⟩
            obtain ⟨-, -, _, hat⟩ := hrecords r hr ⟨record, hmem⟩
            cases hparse.symm.trans (hsome hr ▸ hat)
      | ok at' =>
        cases hresult : o.deleteRecord with
        | error err =>
          rw [gone_of_revoke s.records hlookup (by
            rw [deleteRbacRecord, if_pos hdelete, hparse, hresult]
            rfl)]
          constructor
          · rintro ⟨hrecords, hnonces, hrunning⟩
            refine ⟨fun r hr _ => .inl ⟨at', hsome hr ▸ hparse⟩, ?_, hnonces, hrunning⟩
            rintro r hr ⟨record, hmem⟩
            exact absurd (hsome hr ▸ hmem) (hrecords record)
          · rintro ⟨-, hrecords, hnonces, hrunning⟩
            refine ⟨fun record hmem => ?_, hnonces, hrunning⟩
            obtain ⟨-, hok, -⟩ := hrecords rbacRef hlookup ⟨record, hmem⟩
            cases hresult.symm.trans hok
        | ok u =>
          rw [gone_of_revoke (s.deleteRecord cfg at').records hlookup (by
            rw [deleteRbacRecord, if_pos hdelete, hparse, hresult]
            rfl)]
          constructor
          · rintro ⟨-, hnonces, hrunning⟩
            exact ⟨fun r hr _ => .inl ⟨at', hsome hr ▸ hparse⟩,
              fun r hr _ => ⟨hdelete, hresult, at', hsome hr ▸ hparse⟩, hnonces, hrunning⟩
          · rintro ⟨-, -, hnonces, hrunning⟩
            refine ⟨fun record hmem => ?_, hnonces, hrunning⟩
            have hne := of_decide_eq_true (List.mem_filter.1 hmem).2
            exact hne (by rw [hparse]; rfl)
    · rw [gone_of_revoke s.records hlookup (by
        rw [deleteRbacRecord, if_neg hdelete]
        rfl)]
      constructor
      · rintro ⟨hrecords, hnonces, hrunning⟩
        refine ⟨fun _ _ h => absurd h hdelete, ?_, hnonces, hrunning⟩
        rintro r hr ⟨record, hmem⟩
        exact absurd (hsome hr ▸ hmem) (hrecords record)
      · rintro ⟨-, hrecords, hnonces, hrunning⟩
        refine ⟨fun record hmem => ?_, hnonces, hrunning⟩
        exact hdelete (hrecords rbacRef hlookup ⟨record, hmem⟩).1

/-- A call is clean if the steps that it cannot take back all work. -/
theorem clean_iff (cfg : Config) (s : State) (call : Call) : Clean cfg s call ↔ Sound cfg s call := by
  cases call with
  | provision o vm requesterDid => exact clean_provision
  | destroy o id => exact gone_destroy

end

/-! ## A container that does not answer -/

def sampleConfig : Config where
  agentDid := "did:plc:bob"
  issuerUrl := "https://bob.example.com"
  containerMode := .container
  deleteRecord := true
  parseAtUri _ := .ok ("com.fedproxy.rbac", "1")

def sampleVM : VM := ⟨"web", none, some "at://did:plc:alice/com.example.vm/1"⟩

/-- All goes well until SSH is polled. -/
def sampleOutcomes : Outcomes where
  uuid := "0f8fad5b"
  mkdir := .ok ()
  createRecord := .ok ⟨"at://did:plc:bob/com.fedproxy.rbac/1", "bafyrei"⟩
  provisioningData := .ok ("00ff", "#cloud-config\n")
  image := .ok ()
  files := .ok ()
  removes := true
  run := (0, "")
  inspect := .ok "172.17.0.2"
  sshReady := false

theorem not_clean_sample :
    ¬ Clean sampleConfig ⟨[], [], [], [], []⟩ (.provision sampleOutcomes sampleVM "did:plc:alice") := by
  intro h
  rw [Clean, clean_provision] at h
  exact Bool.false_ne_true ((h ⟨(), rfl⟩ ⟨_, rfl⟩).address rfl).2

end ComputeContract.Provider
