import ComputeContract.Lib.AssocList
import ComputeContract.Lib.Along

/-!
# Droplets

The droplets API of the local host. `POST /v2/droplets` registers a droplet for its caller and
answers before the container exists: `spawnVM` goes on in the background. `DELETE` takes the
droplet out of the registry and then kills its container. Requests and spawns run in between one
another: each is at an `await`.

* `answer`: what a request or a spawn does with an answer;
* `Registered`: what should hold in every state.
-/

namespace ComputeContract.Droplets

open AssocList

/-! ## Data -/

inductive Status
  | new
  | active
  | off
  deriving DecidableEq

/-- The fields of a droplet that change, and those that the caller gives. -/
structure Droplet where
  id : String
  name : String
  status : Status
  /-- The addresses of `networks.v4`. -/
  v4 : List String
  tags : List String
  containerName : Option String
  deriving DecidableEq

/-- `dropletsByActx` -/
abbrev Registry := List (String × List (String × Droplet))

/-- The fields of a `DropletCreateRequest` that are read. -/
structure CreateRequest where
  name : String
  region : Option String
  tags : List String
  deriving DecidableEq

/-- A request or a spawn at an `await`, with the droplet and its caller. -/
inductive Pending
  /-- `ProvisioningData.create` -/
  | provisioningData (actx : String) (droplet : Droplet)
  /-- The image and the files, up to `docker run` -/
  | prepare (actx id : String)
  /-- `docker run` -/
  | run (actx id : String)
  /-- `dockerInspectIp` -/
  | inspect (actx id : String)
  /-- `pollSsh` -/
  | poll (actx id ip : String)
  /-- `docker kill` of a `DELETE` -/
  | kill (actx id : String)
  /-- `docker rm -f` of a `DELETE` -/
  | remove (actx id : String)
  deriving DecidableEq

/-- What is awaited comes. -/
inductive Answer
  | provisioningData (result : Except String Unit)
  | prepared (result : Except String Unit)
  /-- The exit code. -/
  | ran (code : ℕ)
  | inspected (result : Except String String)
  | polled (up : Bool)
  /-- Whether the container is stopped. -/
  | killed (stops : Bool)
  /-- Whether the container is removed, if there is one. -/
  | removed (removes : Bool)

inductive Reply
  | error (id message : String) (status : ℕ)
  | accepted (droplet : Droplet)
  | droplets (droplets : List Droplet)
  | droplet (droplet : Droplet)
  | noContent (id : String)
  deriving DecidableEq

inductive Effect
  | created (id actx : String)
  /-- A reply to a request of the caller, which made this droplet or none. -/
  | replied (actx : String) (made : Option String) (reply : Reply)
  deriving DecidableEq

structure State where
  registry : Registry
  /-- The droplets whose containers run. -/
  running : List String
  pending : List Pending
  log : List Effect
  deriving DecidableEq

/-! ## The registry -/

/-- `getDropletsMap` -/
def dropletsOf (registry : Registry) (actx : String) : List (String × Droplet) :=
  (registry.lookup actx).getD []

/-- The droplet changes, wherever it is registered. -/
def update (registry : Registry) (actx id : String) (f : Droplet → Droplet) : Registry :=
  match (dropletsOf registry actx).lookup id with
  | none => registry
  | some droplet => set actx (set id (f droplet) (dropletsOf registry actx)) registry

/-- The ids that `killAllDroplets` removes. -/
def killAllIds (registry : Registry) : List String := registry.flatMap fun e => keys e.2

/-! ## Requests and spawns -/

section
variable (containerMode : Bool) (s : State)

def wait (p : Pending) : State := { s with pending := p :: s.pending }

def reply (actx : String) (made : Option String) (r : Reply) : State :=
  { s with log := s.log ++ [.replied actx made r] }

def change (actx id : String) (f : Droplet → Droplet) : State :=
  { s with registry := update s.registry actx id f }

/-- `droplet.status = "off"` -/
def turnOff (actx id : String) : State := change s actx id fun d => { d with status := .off }

/-- The container path catches what is thrown, the other one only fails. -/
def failSpawn (actx id : String) : State := if containerMode then turnOff s actx id else s

/-- The address is known, `onIp`. -/
def locate (actx id ip : String) : State :=
  change s actx id fun d => { d with v4 := [ip], containerName := some ("droplet-" ++ id) }

/-- `POST /v2/droplets`, of a body that parses or not; `id` is `crypto.randomUUID()`. -/
def post (actx : String) (body : Option CreateRequest) (id : String) : State :=
  match body with
  | none => reply s actx none (.error "unprocessable_entity" "Invalid JSON body" 422)
  | some req =>
    if req.name = "" then
      reply s actx none (.error "unprocessable_entity" "'name' is required" 422)
    else if req.region = some "invalid-region-for-auth-check" then
      reply s actx none (.error "unprocessable_entity" "invalid region" 422)
    else
      let droplet : Droplet := ⟨id, req.name, .new, [], req.tags, none⟩
      wait { s with
        registry := set actx (set id droplet (dropletsOf s.registry actx)) s.registry
        log := s.log ++ [.created id actx] } (.provisioningData actx droplet)

/-- The droplet is spawned in the background, and the reply is sent. -/
def spawn (actx : String) (droplet : Droplet) : State :=
  reply (wait s (.prepare actx droplet.id)) actx (some droplet.id) (.accepted droplet)

/-- `GET /v2/droplets` -/
def list (actx : String) : State :=
  reply s actx none (.droplets ((dropletsOf s.registry actx).map Prod.snd))

/-- `GET /v2/droplets/:id` -/
def get (actx id : String) : State :=
  match (dropletsOf s.registry actx).lookup id with
  | none => reply s actx none (.error "not_found" "Droplet not found" 404)
  | some droplet => reply s actx none (.droplet droplet)

/-- `DELETE /v2/droplets/:id` -/
def delete (actx id : String) : State :=
  if id ∈ keys (dropletsOf s.registry actx) then
    wait { s with registry := set actx (erase id (dropletsOf s.registry actx)) s.registry }
      (.kill actx id)
  else reply s actx none (.error "not_found" "Droplet not found" 404)

/-- The container stops, if it does. -/
def stop (id : String) (stops : Bool) : State :=
  if stops then { s with running := s.running.filter (· ≠ id) } else s

/-- A request or a spawn takes an answer; `none` for an answer to something else. -/
def answer : Pending → Answer → Option State
  | .provisioningData actx droplet, .provisioningData (.ok ()) => some (spawn s actx droplet)
  | .provisioningData actx droplet, .provisioningData (.error err) =>
    some (reply s actx (some droplet.id) (.error "server_error" err 500))
  | .prepare actx id, .prepared (.ok ()) => some (wait s (.run actx id))
  | .prepare actx id, .prepared (.error _) => some (failSpawn containerMode s actx id)
  | .run actx id, .ran code =>
    if code = 0 then some (wait { s with running := id :: s.running } (.inspect actx id))
    else some (turnOff s actx id)
  | .inspect actx id, .inspected (.ok ip) =>
    some (wait (if containerMode then locate s actx id ip else s) (.poll actx id ip))
  | .inspect actx id, .inspected (.error _) => some (failSpawn containerMode s actx id)
  | .poll actx id ip, .polled up =>
    if up then some (change (locate s actx id ip) actx id fun d => { d with status := .active })
    else some (failSpawn containerMode s actx id)
  | .kill actx id, .killed stops => some (wait (stop s id stops) (.remove actx id))
  | .remove actx id, .removed removes => some (reply (stop s id removes) actx none (.noContent id))
  | _, _ => none

/-! ## Runs -/

inductive Event
  | post (actx : String) (body : Option CreateRequest) (id : String)
  | list (actx : String)
  | get (actx id : String)
  | delete (actx id : String)
  | answer (i : ℕ) (a : Answer)
  /-- A container stops: it ends, or `killAllDroplets` removes it. -/
  | stops (id : String)

/-- The request or spawn at `i` takes an answer. -/
def resume (i : ℕ) (a : Answer) : State :=
  match s.pending[i]? with
  | none => s
  | some p => (answer containerMode { s with pending := s.pending.eraseIdx i } p a).getD s

/-- An authorized request comes in, or something goes on. -/
def step : Event → State
  | .post actx body id => post s actx body id
  | .list actx => list s actx
  | .get actx id => get s actx id
  | .delete actx id => delete s actx id
  | .answer i a => resume containerMode s i a
  | .stops id => stop s id true

end

def start : State := ⟨[], [], [], []⟩

/-! ## What should hold -/

def Pending.id : Pending → String
  | .provisioningData _ droplet => droplet.id
  | .prepare _ id | .run _ id | .inspect _ id | .poll _ id _
  | .kill _ id | .remove _ id => id

def Pending.actx : Pending → String
  | .provisioningData actx _ | .prepare actx _ | .run actx _ | .inspect actx _ | .poll actx _ _
  | .kill actx _ | .remove actx _ => actx

/-- A `DELETE` is at work. -/
def Pending.deletes : Pending → Bool
  | .kill _ _ | .remove _ _ => true
  | _ => false

/-- The container may still be started. -/
def Pending.starts : Pending → Bool
  | .provisioningData _ _ | .prepare _ _ | .run _ _ => true
  | _ => false

/-- The droplets that a reply shows. -/
def Reply.shown : Reply → List Droplet
  | .accepted d | .droplet d => [d]
  | .droplets ds => ds
  | _ => []

def Reply.isError : Reply → Bool
  | .error _ _ _ => true
  | _ => false

structure Registered (s : State) : Prop where
  /-- A droplet that was deleted has no container, once its steps have ended. -/
  deleted : ∀ actx made id, .replied actx made (.noContent id) ∈ s.log →
    (∀ p ∈ s.pending, p.id ≠ id) → id ∉ s.running
  /-- A container that runs, and is not being deleted, is registered for its creator only. -/
  registered : ∀ id ∈ s.running, (∀ p ∈ s.pending, p.deletes → p.id ≠ id) →
    ∃ actx, .created id actx ∈ s.log ∧ id ∈ killAllIds s.registry ∧
      ∀ actx', id ∈ keys (dropletsOf s.registry actx') ↔ actx' = actx
  /-- A caller is shown its own droplets. -/
  shown : ∀ actx made reply, .replied actx made reply ∈ s.log →
    ∀ droplet ∈ reply.shown, .created droplet.id actx ∈ s.log
  /-- A caller deletes its own droplets. -/
  own : ∀ actx made id, .replied actx made (.noContent id) ∈ s.log → .created id actx ∈ s.log
  /-- A request that fails leaves no droplet. -/
  failed : ∀ actx made reply, .replied actx made reply ∈ s.log → reply.isError →
    ∀ id, made = some id → ∀ actx', id ∉ keys (dropletsOf s.registry actx')

/-- Ids are new. -/
def Kept (s : State) (e : Event) : Prop :=
  ∀ actx body id, e = .post actx body id → ∀ actx', .created id actx' ∉ s.log

/-- The step keeps to what the API does not check. -/
structure Careful (s : State) (e : Event) : Prop where
  /-- A droplet is deleted once its container is started, or will not be. -/
  delete : ∀ actx id, e = .delete actx id → ∀ p ∈ s.pending, p.starts → p.id ≠ id
  /-- `docker rm -f` removes the container, if it still runs. -/
  remove : ∀ i actx id, e = .answer i (.removed false) → s.pending[i]? = some (.remove actx id) →
    id ∉ s.running
  /-- The provisioning data are created. -/
  provisioningData : ∀ i err, e ≠ .answer i (.provisioningData (.error err))

end ComputeContract.Droplets
