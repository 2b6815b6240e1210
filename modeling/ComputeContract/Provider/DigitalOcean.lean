import ComputeContract.Provider.Local

/-!
# The DigitalOcean provider

`configureDropletRbac` writes a policy and a role for a requester's VM into the provider's RBAC
repository, as HCL, before the droplet is created. The strings of the requester are put into the
texts and the paths as they are.

* `Safe`: the files say what they should, and the grant can be revoked;
* `not_safe`: they never do, since no call gets to its end;
* `provision_throws`: what follows for a provision;
* `inside_policyPath`, `policyPath_eq_iff`: where the files are.
-/

namespace ComputeContract.DigitalOcean

open AssocList Provider

/-! ## Data -/

structure VM extends Provider.VM where
  /-- `_cid` -/
  cid : Option String

structure DOContext where
  rbacRepo : String
  teamUuid : String

/-- The body of `POST /v2/droplets`, and on whose behalf it is sent. -/
structure DropletRequest where
  name : String
  userData : Option String
  tags : List String
  onBehalfOf : String

structure State where
  /-- The files of the RBAC repository. -/
  files : List (String × String)
  requests : List DropletRequest
  rbacByProvider : List (ProviderId × StrongRef)

/-- What comes of the steps of a call. The exit codes of `git` are only logged. -/
structure Outcomes where
  /-- `GET /v2/account`: the uuid of the team -/
  account : Except String String
  /-- Whether the repository is there already. -/
  gitDir : Bool
  /-- The credential helper, and the commands that set the repository up. -/
  setup : Except String Unit
  mkdirs : Except String Unit
  writePolicy : Except String Unit
  writeRole : Except String Unit
  /-- The commands that commit and push. -/
  commit : Except String Unit
  /-- The commands that show the schema. -/
  schema : Except String Unit
  /-- `POST /v2/droplets`: the id of the droplet, if there is one -/
  droplet : Except String (Option ProviderId)

/-! ## Files -/

section
variable (doctx : DOContext) (requesterDid role : String)

def slugOf : String := doctx.teamUuid ++ "-" ++ lastSegment requesterDid ++ "-" ++ role

def subjectOf : String :=
  "actx:" ++ doctx.teamUuid ++ ":plc:" ++ lastSegment requesterDid ++ ":role:" ++ role

def policyPath : String := doctx.rbacRepo ++ "/policies/ex-" ++ slugOf doctx requesterDid role ++ ".hcl"

def rolePath : String :=
  doctx.rbacRepo ++ "/droplet-roles/ex-" ++ slugOf doctx requesterDid role ++ ".hcl"

def policyEx : String :=
  "path \"/v1/oidc/issue\" \x7b\n" ++
  "  capabilities = [\"create\"]\n" ++
  "  allowed_parameters = \x7b\n" ++
  "    \"aud\" = \"*\"\n" ++
  "    \"sub\" = \"" ++ subjectOf doctx requesterDid role ++ "\"\n" ++
  "    \"ttl\" = 3600\n" ++
  "  \x7d\n" ++
  "\x7d\n"

def roleEx : String :=
  "role \"ex-" ++ slugOf doctx requesterDid role ++ "\" \x7b\n" ++
  "  aud      = \"api://DigitalOcean?actx=" ++ doctx.teamUuid ++ "\"\n" ++
  "  sub      = \"" ++ subjectOf doctx requesterDid role ++ "\"\n" ++
  "  policies = [\"ex-" ++ slugOf doctx requesterDid role ++ "\"]\n" ++
  "\x7d\n"

end

/-! ## Calls -/

section
variable (o : Outcomes)

def makeDoctx (rbacRepoRoot : String) : Task State String DOContext := do
  let uuid ← Task.ofExcept o.account
  pure ⟨rbacRepoRoot ++ "/" ++ uuid, uuid⟩

def writeFile (path text : String) (result : Except String Unit) : Task State String Unit := do
  Task.ofExcept result
  Task.modify fun s => { s with files := set path text s.files }

/-- The repository is set up unless it is there. -/
def setupRepo : Task State String Unit := if o.gitDir then pure () else Task.ofExcept o.setup

def configureDropletRbac (doctx : DOContext) (vm : VM) (requesterDid : String) :
    Task State String StrongRef := do
  setupRepo o
  Task.ofExcept o.mkdirs
  writeFile (policyPath doctx requesterDid vm.role) (policyEx doctx requesterDid vm.role)
    o.writePolicy
  writeFile (rolePath doctx requesterDid vm.role) (roleEx doctx requesterDid vm.role) o.writeRole
  Task.ofExcept o.commit
  Task.ofExcept o.schema
  -- `return rbacRef`, which is declared nowhere.
  Task.throw "ReferenceError: rbacRef is not defined"

def createDroplet (rbacRepoRoot : String) (vm : VM) (requesterDid : String) :
    Task State String (Option ProviderId × StrongRef) := do
  let requesterPlc := lastSegment requesterDid
  let rfpRkey := ((splitAt '/' (vm.uri.getD ""))[4]?).getD "unknown"
  let name := requesterPlc ++ "-" ++ rfpRkey ++ "-" ++ vm.cid.getD ""
  let body : DropletRequest := ⟨name, vm.userData, tagsOf requesterDid vm.role, requesterDid⟩
  let doctx ← makeDoctx o rbacRepoRoot
  let rbacRef ← configureDropletRbac o doctx vm requesterDid
  Task.modify fun s => { s with requests := s.requests ++ [body] }
  let id ← Task.ofExcept o.droplet
  pure (id, rbacRef)

/-- The adapter: the grant is recorded for `destroy`. -/
def provision (rbacRepoRoot : String) (vm : VM) (requesterDid : String) :
    Task State String ProviderId := do
  let (id, rbacRef) ← createDroplet o rbacRepoRoot vm requesterDid
  let providerId := id.getD (.number 0)
  Task.modify fun s => { s with rbacByProvider := set providerId rbacRef s.rbacByProvider }
  pure providerId

end

/-! ## Policies -/

/-- A value of an HCL document. -/
inductive Hcl
  | string (s : String)
  | number (n : ℕ)
  | list (items : List Hcl)
  | object (fields : List (String × Hcl))

structure Block where
  type : String
  labels : List String
  attributes : List (String × Hcl)

section
variable (doctx : DOContext) (requesterDid role : String)

/-- The only block that a policy should be. -/
def policyBlock : Block :=
  ⟨"path", ["/v1/oidc/issue"], [("capabilities", .list [.string "create"]),
    ("allowed_parameters", .object [("aud", .string "*"),
      ("sub", .string (subjectOf doctx requesterDid role)), ("ttl", .number 3600)])]⟩

/-- The only block that a role should be. -/
def roleBlock : Block :=
  ⟨"role", ["ex-" ++ slugOf doctx requesterDid role],
    [("aud", .string ("api://DigitalOcean?actx=" ++ doctx.teamUuid)),
      ("sub", .string (subjectOf doctx requesterDid role)),
      ("policies", .list [.string ("ex-" ++ slugOf doctx requesterDid role)])]⟩

end

/-- The file lies in the directory itself. -/
def Inside (directory path : String) : Prop :=
  ∃ name : String, path = directory ++ "/" ++ name ∧ '/' ∉ name.toList

/-- What a call for a requester's VM should leave, and return. -/
structure Safe (readHcl : String → Option (List Block)) (doctx : DOContext)
    (requesterDid role : String) (s : State) (r : Outcome String StrongRef × State) : Prop where
  /-- The files that are new are one policy and one role. -/
  files : ∀ path text, r.2.files.lookup path = some text → s.files.lookup path ≠ some text →
    Inside (doctx.rbacRepo ++ "/policies") path ∧
        readHcl text = some [policyBlock doctx requesterDid role] ∨
      Inside (doctx.rbacRepo ++ "/droplet-roles") path ∧
        readHcl text = some [roleBlock doctx requesterDid role]
  /-- The files of another requester have other paths. -/
  apart : ∀ requesterDid' role', requesterDid' ≠ requesterDid →
    policyPath doctx requesterDid' role' ≠ policyPath doctx requesterDid role ∧
      rolePath doctx requesterDid' role' ≠ rolePath doctx requesterDid role
  /-- There is a reference to revoke. -/
  returns : r.1.Returned

/-! ## Paths -/

section
variable {doctx : DOContext} {requesterDid requesterDid' role role' : String}

theorem policyPath_eq : policyPath doctx requesterDid role =
    doctx.rbacRepo ++ "/policies" ++ "/" ++ ("ex-" ++ slugOf doctx requesterDid role ++ ".hcl") :=
  String.toList_injective (by simp [policyPath])

/-- A slash in the team, the requester or the role leads out of the directory. -/
theorem inside_policyPath : Inside (doctx.rbacRepo ++ "/policies") (policyPath doctx requesterDid role) ↔
    '/' ∉ (slugOf doctx requesterDid role).toList := by
  have hname : '/' ∉ ("ex-" ++ slugOf doctx requesterDid role ++ ".hcl").toList ↔
      '/' ∉ (slugOf doctx requesterDid role).toList := by
    simp
  rw [← hname, policyPath_eq]
  constructor
  · rintro ⟨name, heq, hslash⟩
    have hlist := congrArg String.toList heq
    simp only [String.toList_append (s := doctx.rbacRepo ++ "/policies" ++ "/")] at hlist
    rwa [List.append_cancel_left hlist]
  · exact fun hslash => ⟨_, rfl, hslash⟩

/-- Two calls write the same policy if their slugs coincide. -/
theorem policyPath_eq_iff : policyPath doctx requesterDid role = policyPath doctx requesterDid' role' ↔
    slugOf doctx requesterDid role = slugOf doctx requesterDid' role' := by
  refine ⟨fun heq => String.toList_injective ?_, fun heq => by rw [policyPath, policyPath, heq]⟩
  have hlist := congrArg String.toList heq
  simp only [policyPath, String.toList_append, List.append_assoc] at hlist
  have hlist := List.append_cancel_left (List.append_cancel_left hlist)
  exact List.append_cancel_right hlist

end

/-! ## No call returns -/

theorem returns_configureDropletRbac (o : Outcomes) (doctx : DOContext) (vm : VM)
    (requesterDid : String) : Task.Returns False (configureDropletRbac o doctx vm requesterDid) := by
  exact .bind_false fun _ => .bind_false fun _ => .bind_false fun _ => .bind_false fun _ =>
    .bind_false fun _ => .bind_false fun _ => .throw _

/-- A provision neither returns nor asks for a droplet. -/
theorem provision_throws (o : Outcomes) (rbacRepoRoot : String) (vm : VM) (requesterDid : String) :
    Task.Returns False (provision o rbacRepoRoot vm requesterDid) :=
  .false_bind (.bind_false fun doctx => .false_bind (returns_configureDropletRbac o doctx vm _))

/-- Whatever the requester, the role and the outcomes are, the call is not safe. -/
theorem not_safe (readHcl : String → Option (List Block)) (o : Outcomes) (doctx : DOContext)
    (vm : VM) (requesterDid : String) (s : State) :
    ¬ Safe readHcl doctx requesterDid vm.role s (configureDropletRbac o doctx vm requesterDid s) :=
  fun h => (returns_configureDropletRbac o doctx vm requesterDid s).1 h.returns

/-! ## A plain role -/

def sampleDoctx : DOContext :=
  ⟨"/root/rbac/8d1c3ab2", "8d1c3ab2"⟩

def sampleVM : VM := { Provider.sampleVM with cid := some "bafyrei" }

/-- Every step works. -/
def sampleOutcomes : Outcomes where
  account := .ok "8d1c3ab2"
  gitDir := true
  setup := .ok ()
  mkdirs := .ok ()
  writePolicy := .ok ()
  writeRole := .ok ()
  commit := .ok ()
  schema := .ok ()
  droplet := .ok (some (.number 1))

/-- The files of the call, read as HCL. -/
def sampleReadHcl (text : String) : Option (List Block) :=
  if text = policyEx sampleDoctx "did:plc:alice" "web" then
    some [policyBlock sampleDoctx "did:plc:alice" "web"]
  else if text = roleEx sampleDoctx "did:plc:alice" "web" then
    some [roleBlock sampleDoctx "did:plc:alice" "web"]
  else none

theorem not_safe_sample : ¬ Safe sampleReadHcl sampleDoctx "did:plc:alice" "web" ⟨[], [], []⟩
    (configureDropletRbac sampleOutcomes sampleDoctx sampleVM "did:plc:alice" ⟨[], [], []⟩) :=
  fun h => (returns_configureDropletRbac sampleOutcomes sampleDoctx sampleVM _ _).1 h.returns

end ComputeContract.DigitalOcean
