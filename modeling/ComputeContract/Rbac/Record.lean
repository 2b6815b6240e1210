import ComputeContract.Lib.AssocList
import ComputeContract.Util.Json

/-!
# Grants

The records `com.fedproxy.rbac` and the allowlists of a service, and how the records of a
repository are joined: those that protect the service and scope write their entries into
shared objects, one after the other.

An object of a record is the list of its entries, in the order of `Object.entries`.
`o[name] = v` is `set`: the runtime is Deno, whose objects have no `__proto__` accessor.
-/

namespace ComputeContract

open AssocList

/-! ## Objects -/

/-- What `o[name]` finds on an object. -/
inductive Property (V : Type)
  | own (value : V)
  /-- A function of `Object.prototype`. -/
  | inherited
  | absent

/-- The names that every object has. -/
def objectPrototype : List String :=
  ["constructor", "__defineGetter__", "__defineSetter__", "hasOwnProperty", "__lookupGetter__",
    "__lookupSetter__", "isPrototypeOf", "propertyIsEnumerable", "toString", "valueOf",
    "toLocaleString"]

def property {V : Type} (o : List (String × V)) (name : String) : Property V :=
  match o.lookup name with
  | some v => .own v
  | none => if name ∈ objectPrototype then .inherited else .absent

/-- What is thrown. -/
inductive Thrown
  /-- An `UnauthorizedException`. -/
  | unauthorized (message : String)
  | error (message : String)
  | typeError
  deriving DecidableEq

/-! ## Records -/

structure RBACProtects where
  service : String
  scope : Option String
  deriving DecidableEq

/-- What `allowed_parameters` says of a parameter. -/
structure ParameterSchema where
  type : Option String
  const : Option Json

structure RBACSchema where
  /-- `properties.capability.enum` -/
  capability : List String
  /-- `properties.allowed_parameters.properties` -/
  allowedParameters : List (String × ParameterSchema)

structure RBACPolicy where
  schemas : List (String × RBACSchema)
  schemas_nodup : (keys schemas).Nodup

structure RBACRoleDefinition where
  iss : Option String
  sub : String
  policies : List String

structure RBACRole where
  definition : RBACRoleDefinition

structure RBACRecord where
  protects : List (String × RBACProtects)
  policies : List (String × RBACPolicy)
  roles : List (String × RBACRole)
  policies_nodup : (keys policies).Nodup
  roles_nodup : (keys roles).Nodup

structure ServiceAllowlistRecord where
  protects : List (String × RBACProtects)
  allowed : List (String × List String)
  allowed_nodup : (keys allowed).Nodup

/-! ## Joining -/

/-- `protectsThis`, after the loop over the entries; it ends with the first one of the
    service. -/
def protectsThis (service scope : String) : List (String × RBACProtects) → Bool
  | [] => false
  | (_, protects) :: rest =>
    if protects.service = service ∨ protects.service = "*" then
      protects.scope = some scope ∨ protects.scope = some "*"
    else protectsThis service scope rest

/-- The variables of the loop over the records of all pages. -/
structure Join (α : Type) where
  joined : α
  anyProtects : Bool
  total : ℕ

section
variable {α R : Type}

/-- The turn of a record in the loop, with the entries that it protects and what it adds. -/
def joinRecord (service scope : String) (protects : R → List (String × RBACProtects))
    (add : α → R → α) (join : Join α) (record : R) : Join α :=
  if protectsThis service scope (protects record) then
    ⟨add join.joined record, true, join.total + 1⟩
  else join

/-- After the loop over the pages. -/
def finishJoin (nsid did service scope : String) (join : Join α) : Except Thrown α :=
  if join.anyProtects = false then
    .error (.error
      s!"no {nsid} records found which protect for did={did} service={service} scope={scope}")
  else if join.total = 0 then .error (.error s!"no {nsid} record found for did={did}")
  else .ok join.joined

/-- The records that protect the service and scope are added in order. -/
theorem foldl_joinRecord (service scope : String) (protects : R → List (String × RBACProtects))
    (add : α → R → α) (join : Join α) (records : List R) :
    records.foldl (joinRecord service scope protects add) join =
      let protecting := records.filter fun r => protectsThis service scope (protects r)
      ⟨protecting.foldl add join.joined, join.anyProtects || !protecting.isEmpty,
        join.total + protecting.length⟩ := by
  induction records generalizing join with
  | nil => simp
  | cons record records ih =>
    rw [List.foldl_cons, ih, joinRecord]
    by_cases h : protectsThis service scope (protects record)
    · simp [h]
      omega
    · simp [h]

/-- What a join over some records ends with. -/
theorem finishJoin_foldl (nsid did service scope : String)
    (protects : R → List (String × RBACProtects)) (add : α → R → α) (a : α) (records : List R) :
    finishJoin nsid did service scope
        (records.foldl (joinRecord service scope protects add) ⟨a, false, 0⟩) =
      let protecting := records.filter fun r => protectsThis service scope (protects r)
      if protecting = [] then
        .error (.error
          s!"no {nsid} records found which protect for did={did} service={service} scope={scope}")
      else .ok (protecting.foldl add a) := by
  rw [foldl_joinRecord]
  generalize records.filter (fun r => protectsThis service scope (protects r)) = protecting
  cases protecting with
  | nil => rfl
  | cons record protecting =>
    unfold finishJoin
    dsimp only
    rw [if_neg (by simp), if_neg (by simp), if_neg (by simp)]

end

/-- What a record adds to `joined` in `getRBACRecord`. -/
def RBACRecord.add (joined record : RBACRecord) : RBACRecord where
  protects := joined.protects
  policies := setAll record.policies joined.policies
  roles := setAll record.roles joined.roles
  policies_nodup := nodup_keys_setAll _ joined.policies_nodup
  roles_nodup := nodup_keys_setAll _ joined.roles_nodup

def RBACRecord.empty : RBACRecord := ⟨[], [], [], .nil, .nil⟩

/-- What a record adds to `joined` in `getServiceAllowlist`. -/
def ServiceAllowlistRecord.add (joined record : ServiceAllowlistRecord) :
    ServiceAllowlistRecord where
  protects := joined.protects
  allowed := setAll record.allowed joined.allowed
  allowed_nodup := nodup_keys_setAll _ joined.allowed_nodup

def ServiceAllowlistRecord.empty : ServiceAllowlistRecord := ⟨[], [], .nil⟩

/-- `getRBACRecord` over the pages that were fetched. -/
def joinRBACRecords (did service scope : String) (pages : List (List RBACRecord)) :
    Except Thrown RBACRecord :=
  finishJoin "com.fedproxy.rbac" did service scope
    (pages.foldl (fun join records => records.foldl
      (joinRecord service scope RBACRecord.protects RBACRecord.add) join) ⟨.empty, false, 0⟩)

/-- `getServiceAllowlist` over the pages that were fetched. -/
def getServiceAllowlist (did service scope : String) (pages : List (List ServiceAllowlistRecord)) :
    Except Thrown ServiceAllowlistRecord :=
  finishJoin "com.publicdomainrelay.temp.auth.allowlist.rbacDid" did service scope
    (pages.foldl (fun join records => records.foldl
      (joinRecord service scope ServiceAllowlistRecord.protects ServiceAllowlistRecord.add) join)
      ⟨.empty, false, 0⟩)

/-- The entries of the joined allowlist, in the order they are written. -/
def ServiceAllowlistRecord.written (service scope : String) (records : List ServiceAllowlistRecord) :
    List (String × List String) :=
  (records.filter fun r => protectsThis service scope r.protects).flatMap ServiceAllowlistRecord.allowed

theorem ServiceAllowlistRecord.allowed_foldl_add (joined : ServiceAllowlistRecord)
    (records : List ServiceAllowlistRecord) :
    (records.foldl add joined).allowed =
      setAll (records.flatMap ServiceAllowlistRecord.allowed) joined.allowed := by
  induction records generalizing joined with
  | nil => rfl
  | cons record records ih =>
    rw [List.foldl_cons, ih, List.flatMap_cons, setAll_append]
    rfl

/-- The joined allowlist, as its entries are written. -/
theorem getServiceAllowlist_ok (did service scope : String)
    (pages : List (List ServiceAllowlistRecord)) (allowlist : ServiceAllowlistRecord)
    (h : getServiceAllowlist did service scope pages = .ok allowlist) :
    allowlist.allowed = setAll (ServiceAllowlistRecord.written service scope pages.flatten) [] := by
  rw [getServiceAllowlist, ← List.foldl_flatten, finishJoin_foldl] at h
  dsimp only at h
  split_ifs at h
  cases h
  exact ServiceAllowlistRecord.allowed_foldl_add .empty _

end ComputeContract
