import ComputeContract.Lib.Along
import ComputeContract.Provider.Local
import ComputeContract.Rbac.Oidc

/-!
# Workload identity

A provisioned VM proves itself to the issuer with its provisioning token and a signature of its
host key, and gets a token. Its subject is put together from the tags of the droplet; the grant
that was minted for the provision names a subject as well. Provisions and requests to
`/v1/oidc/prove` run in between one another: each is at an `await`.

* `subject`: what prove puts together;
* `Identity`: what should hold in every state.
-/

namespace ComputeContract.Provider

open AssocList

/-! ## Subjects -/

/-- `oidc-sub:<key>:<value>`, unless the key is `actx`. -/
def isSubjectTag (tag : String) : Bool :=
  "oidc-sub:".toList.isPrefixOf tag.toList && (splitAt ':' tag).length = 3 &&
    (splitAt ':' tag)[1]? ≠ some "actx"

def subjectPart (tag : String) : String :=
  ((splitAt ':' tag)[1]?).getD "undefined" ++ ":" ++ ((splitAt ':' tag)[2]?).getD "undefined"

/-- The subject of a droplet with these tags. -/
def subject (actx : String) (tags : List String) : String :=
  ":".intercalate (("actx:" ++ actx) :: (tags.filter isSubjectTag).map subjectPart)

/-! ## Tokens -/

/-- The claims of a token that are read. -/
structure Payload where
  aud : String
  sub : String
  nonce : Option String
  dropletId : Option String
  deriving DecidableEq

def audienceOf (actx : String) : String := "api://DigitalOcean?actx=" ++ actx

/-- `OIDCToken.validate`, of a token with these claims that carries the issuer's signature. -/
def checkAudience (payload : Payload) : Except String String :=
  match parseAudience payload.aud with
  | .error e => .error e.message
  | .ok (actx, api) =>
    if payload.aud = "api://" ++ api ++ "?actx=" ++ actx then .ok actx
    else .error "OIDC token failed validation: unexpected \"aud\" claim value"

/-! ## Requests -/

structure Provision where
  vm : VM
  requesterDid : String
  uuid : String
  deriving DecidableEq

def Provision.name (p : Provision) : String := containerNameOf p.vm p.requesterDid p.uuid

/-- What is sent to `/v1/oidc/prove`. -/
structure Prove where
  token : String
  sig : String
  port : ℕ
  deriving DecidableEq

/-- A provision or a request at an `await`. -/
inductive Pending
  | mkdir (p : Provision)
  | createRecord (p : Provision)
  /-- `ProvisioningData.create` -/
  | provisioningData (p : Provision)
  /-- `runContainer` or `provisionVM` -/
  | start (p : Provision)
  /-- `OIDCToken.validate` in the route -/
  | validate (r : Prove)
  /-- `OIDCToken.validate` in `validate` -/
  | validateAgain (r : Prove)
  /-- `getPublicKeyFromSshd` -/
  | scan (r : Prove) (actx nonce : String) (droplet : LocalDroplet)
  /-- `validateSshSignature` -/
  | check (r : Prove) (actx nonce : String) (droplet : LocalDroplet) (publicKey : String)
  /-- `OIDCToken.create` -/
  | create (actx nonce sub dropletId : String)
  deriving DecidableEq

/-- What is awaited comes. -/
inductive Answer
  | mkdir (result : Except String Unit)
  | createRecord (result : Except String StrongRef)
  /-- A nonce, and the token for it. -/
  | provisioningData (result : Except String (String × String))
  /-- `onIp` -/
  | ip (address : String)
  | started (result : Except String String)
  /-- The claims of a token that carries the issuer's signature. -/
  | validated (result : Except String Payload)
  | key (result : Except String String)
  | checked (result : Except String Bool)
  | token (result : Except String String)

inductive Effect
  | requested (name requesterDid role : String)
  | granted (name : String) (record : RBACRecord)
  | associated (nonce name : String)
  | minted (nonce sub dropletId : String)
  | provisioned (result : Except String String)
  | refused (message : String)
  | invalid

structure Identities where
  droplets : List (String × LocalDroplet)
  nonces : List (String × String)
  /-- The tokens that carry the issuer's signature. -/
  tokens : List (String × Payload)
  pending : List Pending
  log : List Effect

/-- What an answer leads to. -/
structure Result where
  droplets : List (String × LocalDroplet)
  nonces : List (String × String)
  tokens : List (String × Payload)
  effects : List Effect
  next : Option Pending

section
variable (cfg : Config) (s : Identities)

def ends (effect : Effect) : Result := ⟨s.droplets, s.nonces, s.tokens, [effect], none⟩

def waits (next : Pending) : Result := ⟨s.droplets, s.nonces, s.tokens, [], some next⟩

/-- The grant is there: the droplet is registered. -/
def register (p : Provision) : Result :=
  ⟨set p.name ⟨p.name, [], tagsOf p.requesterDid p.vm.role, none⟩ s.droplets, s.nonces, s.tokens,
    [.granted p.name (rbacRecord cfg p.vm p.requesterDid)], some (.provisioningData p)⟩

/-- The provisioning token is there: its nonce is associated with the droplet. -/
def associate (p : Provision) (nonce token : String) : Result :=
  let actx := lastSegment cfg.agentDid
  ⟨s.droplets, set nonce p.name s.nonces,
    (token, ⟨audienceOf actx, "actx:" ++ actx ++ ":role:provisioning:nonce:" ++ nonce, some nonce,
      none⟩) :: s.tokens,
    [.associated nonce p.name], some (.start p)⟩

/-- The droplet, while it is registered, has an address. -/
def locate (p : Provision) (address : String) (effects : List Effect) (next : Option Pending) :
    Result :=
  let droplets := match s.droplets.lookup p.name with
    | none => s.droplets
    | some droplet =>
      set p.name { droplet with v4 := [address], containerName := some p.name } s.droplets
  ⟨droplets, s.nonces, s.tokens, effects, next⟩

/-- `validate`, up to the droplet of the nonce, which is used. -/
def useNonce (r : Prove) (actx : String) (nonce : Option String) : Result :=
  match nonce.filter (· ≠ "") with
  | none => ends s (.refused "provisioning token missing nonce claim")
  | some nonce =>
    match s.nonces.lookup nonce with
    | none => ends s (.refused ("Nonce " ++ nonce ++ " not found"))
    | some dropletId =>
      let nonces := erase nonce s.nonces
      match s.droplets.lookup dropletId with
      | none => ⟨s.droplets, nonces, s.tokens,
          [.refused ("droplet " ++ dropletId ++ " not found")], none⟩
      | some droplet =>
        if droplet.v4 = [] then ⟨s.droplets, nonces, s.tokens,
          [.refused ("no public IPv4 for droplet " ++ dropletId)], none⟩
        else ⟨s.droplets, nonces, s.tokens, [], some (.scan r actx nonce droplet)⟩

/-- The token of a droplet is there. -/
def mint (actx nonce sub dropletId token : String) : Result :=
  ⟨s.droplets, s.nonces, (token, ⟨audienceOf actx, sub, none, some dropletId⟩) :: s.tokens,
    [.minted nonce sub dropletId], none⟩

/-- A provision or a request takes an answer; `none` for an answer to something else. -/
def answer : Pending → Answer → Option Result
  | .mkdir p, .mkdir (.ok ()) => waits s (.createRecord p)
  | .createRecord p, .createRecord (.ok _) => register cfg s p
  | .provisioningData p, .provisioningData (.ok (nonce, token)) => associate cfg s p nonce token
  | .start p, .ip address => locate s p address [] (some (.start p))
  | .start p, .started (.ok address) => locate s p address [.provisioned (.ok p.name)] none
  | .mkdir _, .mkdir (.error err) | .createRecord _, .createRecord (.error err)
  | .provisioningData _, .provisioningData (.error err) | .start _, .started (.error err) =>
    ends s (.provisioned (.error err))
  | .validate r, .validated result =>
    match result.bind checkAudience with
    | .error err => ends s (.refused err)
    | .ok _ => waits s (.validateAgain r)
  | .validateAgain r, .validated (.ok payload) =>
    match checkAudience payload with
    | .error err => ends s (.refused err)
    | .ok actx => useNonce s r actx payload.nonce
  | .scan r actx nonce droplet, .key (.ok publicKey) => waits s (.check r actx nonce droplet publicKey)
  | .check _ actx nonce droplet _, .checked (.ok valid) =>
    if valid then waits s (.create actx nonce (subject actx droplet.tags) droplet.id)
    else ends s .invalid
  | .check _ _ _ _ _, .checked (.error err) =>
    ends s (.refused ("Failed to validate SSHD signature: " ++ err))
  | .create actx nonce sub dropletId, .token (.ok token) => mint s actx nonce sub dropletId token
  | .validateAgain _, .validated (.error err) | .scan _ _ _ _, .key (.error err)
  | .create _ _ _ _, .token (.error err) => ends s (.refused err)
  | _, _ => none

inductive Event
  | provision (p : Provision)
  | prove (r : Prove)
  | answer (i : ℕ) (a : Answer)
  /-- `droplets.delete` -/
  | destroy (name : String)

def resume (i : ℕ) (a : Answer) : Identities :=
  match s.pending[i]? with
  | none => s
  | some p =>
    match answer cfg s p a with
    | none => s
    | some r => ⟨r.droplets, r.nonces, r.tokens, r.next.toList ++ s.pending.eraseIdx i,
        s.log ++ r.effects⟩

def step : Event → Identities
  | .provision p => { s with
      pending := .mkdir p :: s.pending
      log := s.log ++ [.requested p.name p.requesterDid p.vm.role] }
  | .prove r => { s with pending := .validate r :: s.pending }
  | .answer i a => resume cfg s i a
  | .destroy name => { s with droplets := erase name s.droplets }

end

def start : Identities := ⟨[], [], [], [], []⟩

/-! ## Agreement -/

/-- The subject that a grant names, in its one role. -/
def Names (record : RBACRecord) (sub : String) : Prop :=
  record.roles.map (·.2.definition.sub) = [sub]

def Effect.mintedFor : Effect → Option String
  | .minted nonce _ _ => some nonce
  | _ => none

structure Identity (s : Identities) : Prop where
  /-- A token has the subject that the grant of the provision names. -/
  agrees : ∀ nonce sub id, .minted nonce sub id ∈ s.log →
    (∃ record, .granted id record ∈ s.log) ∧ ∀ record, .granted id record ∈ s.log → Names record sub
  /-- VMs of two requesters have two subjects. -/
  apart : ∀ nonce nonce' sub sub' id id' requester requester' role role',
    .minted nonce sub id ∈ s.log → .minted nonce' sub' id' ∈ s.log →
    .requested id requester role ∈ s.log → .requested id' requester' role' ∈ s.log →
    requester ≠ requester' → sub ≠ sub'
  /-- A nonce is used for one token. -/
  once : (s.log.filterMap Effect.mintedFor).Nodup
  /-- It is that of the droplet. -/
  own : ∀ nonce sub id, .minted nonce sub id ∈ s.log → .associated nonce id ∈ s.log

/-- Nonces are new, and only the issuer signs. -/
structure Kept (s : Identities) (e : Event) : Prop where
  nonces : ∀ i nonce token, e = .answer i (.provisioningData (.ok (nonce, token))) →
    ∀ name, .associated nonce name ∉ s.log
  tokens : ∀ i payload, e = .answer i (.validated (.ok payload)) →
    ∀ r, s.pending[i]? = some (.validate r) ∨ s.pending[i]? = some (.validateAgain r) →
      (r.token, payload) ∈ s.tokens

/-- The step keeps to what the provider does not check. -/
structure Careful (s : Identities) (e : Event) : Prop where
  /-- The role is one segment. -/
  role : ∀ p, e = .provision p → ':' ∉ p.vm.role.toList
  /-- The container name is new. -/
  name : ∀ p, e = .provision p → ∀ requester role, .requested p.name requester role ∉ s.log
  /-- Another requester with the same role has another last segment. -/
  requester : ∀ p, e = .provision p → ∀ name requester, requester ≠ p.requesterDid →
    .requested name requester p.vm.role ∈ s.log →
    lastSegment requester ≠ lastSegment p.requesterDid

end ComputeContract.Provider
