import ComputeContract.Rbac.Record
import ComputeContract.Util.Text

/-!
# The policy check

`checkRBACPolicy`: the policies of the roles of a subject, in order, until one has a
schema for the path that lists the capability of the method. A name that only
`Object.prototype` answers to is no policy, and the check throws on it.

* `checkRBACPolicy_eq_ok`: what it takes to be permitted.
-/

namespace ComputeContract

open AssocList

/-! ## Paths -/

/-- The rest after the first occurrence of `part`, by `indexOf` and `slice`. -/
def afterFirst (part : List Char) : List Char → Option (List Char)
  | [] => if part = [] then some [] else none
  | c :: rest =>
    if part.isPrefixOf (c :: rest) then some ((c :: rest).drop part.length)
    else afterFirst part rest

/-- The loop of `globMatch` over the parts of the pattern. -/
def globParts : List (List Char) → List Char → Bool
  | [], _ => true
  | [last], rest => last.isEmpty || last.isSuffixOf rest
  | part :: parts, rest =>
    if part.isEmpty then globParts parts rest
    else match afterFirst part rest with
      | none => false
      | some rest => globParts parts rest

def globMatch (pattern s : String) : Bool :=
  if pattern = "*" then true else globParts (pattern.toList.splitOn '*') s.toList

/-- `length` of a string. -/
def utf16Length (s : String) : ℕ := (utf16 s).length

/-- `best` and `bestSchema`, after the loop over the patterns. -/
def bestSchema (path : String) (schemas : List (String × RBACSchema)) :
    String × Option RBACSchema :=
  schemas.foldl (fun best e =>
    if globMatch e.1 path ∧ utf16Length best.1 < utf16Length e.1 then (e.1, some e.2) else best)
    ("", none)

def findMatchingSchema (schemas : List (String × RBACSchema)) (path : String) :
    Property RBACSchema :=
  match property schemas path with
  | .own schema => .own schema
  | .inherited => .inherited
  | .absent =>
    match (bestSchema path schemas).2 with
    | some schema => .own schema
    | none => .absent

/-! ## Methods -/

/-- `toUpperCase` of a character, where it is a letter of a method. -/
def upperChar (c : Char) : List Char :=
  if c = 'ı' then ['I'] else if c = 'ſ' then ['S'] else if c = 'ﬅ' ∨ c = 'ﬆ' then ['S', 'T']
  else [c.toUpper]

def HTTP_METHOD_CAPABILITY : List (String × String) :=
  [("GET", "read"), ("HEAD", "read"), ("OPTIONS", "read"), ("POST", "create"),
    ("PUT", "update"), ("PATCH", "update"), ("DELETE", "delete")]

def methodCapability (method : String) : Option String :=
  HTTP_METHOD_CAPABILITY.lookup (String.ofList (method.toList.flatMap upperChar))

/-! ## The check -/

/-- What a policy name of a role says of the request. -/
inductive Verdict
  | permits
  | denies (allowed : List String)
  /-- No policy, or none of its schemas covers the path. -/
  | silent
  | throws

def verdict (policies : List (String × RBACPolicy)) (path capability name : String) : Verdict :=
  match property policies name with
  | .absent => .silent
  | .inherited => .throws
  | .own policy =>
    match findMatchingSchema policy.schemas path with
    | .absent => .silent
    | .inherited => .throws
    | .own schema =>
      if capability ∈ schema.capability then .permits else .denies schema.capability

/-- The loop over the matching policies; `noPolicy` is thrown when no one said anything. -/
def checkPolicies (policies : List (String × RBACPolicy)) (path capability : String)
    (noPolicy : Thrown) : List String → List String → Except Thrown Unit
  | [], denials =>
    if denials.isEmpty then .error noPolicy
    else .error (.unauthorized (String.intercalate "; " denials))
  | name :: names, denials =>
    match verdict policies path capability name with
    | .permits => .ok ()
    | .silent => checkPolicies policies path capability noPolicy names denials
    | .throws => .error .typeError
    | .denies allowed =>
      let list := String.intercalate ", " allowed
      checkPolicies policies path capability noPolicy names
        (denials ++ [s!"policy '{name}': capability '{capability}' not in [{list}] for path '{path}'"])

/-- The policies of the roles of the subject; `none` is a claim that is no string. -/
def matchingPolicies (rbac : RBACRecord) (sub : Option String) : List String :=
  (objectEntries rbac.roles).flatMap fun e =>
    if some e.2.definition.sub = sub then e.2.definition.policies else []

def checkRBACPolicy (rbac : RBACRecord) (sub : Option String) (path method : String) :
    Except Thrown Unit :=
  match methodCapability method with
  | none => .error (.unauthorized s!"unsupported HTTP method {method}")
  | some capability =>
    let subText := sub.getD "undefined"
    let matching := matchingPolicies rbac sub
    if matching.isEmpty then
      .error (.unauthorized s!"no matching role found for sub: {subText}")
    else checkPolicies rbac.policies path capability
      (.unauthorized s!"no policy covers path='{path}' for sub='{subText}'") matching []

/-- The policies permit when one of them does, and none throws before it. -/
theorem checkPolicies_eq_ok {policies : List (String × RBACPolicy)} {path capability : String}
    {noPolicy : Thrown} {names denials : List String} :
    checkPolicies policies path capability noPolicy names denials = .ok () ↔
      ∃ before name after, names = before ++ name :: after ∧
        verdict policies path capability name = .permits ∧
        ∀ n ∈ before, verdict policies path capability n ≠ .throws := by
  induction names generalizing denials with
  | nil =>
    have hne : checkPolicies policies path capability noPolicy [] denials ≠ .ok () := by
      unfold checkPolicies
      split_ifs <;> simp
    simp [hne]
  | cons n names ih =>
    -- The first name decides, unless it is silent or denies.
    have hrest : verdict policies path capability n ≠ .throws →
        (∃ before name after, names = before ++ name :: after ∧
          verdict policies path capability name = .permits ∧
          ∀ n' ∈ before, verdict policies path capability n' ≠ .throws) →
        ∃ before name after, n :: names = before ++ name :: after ∧
          verdict policies path capability name = .permits ∧
          ∀ n' ∈ before, verdict policies path capability n' ≠ .throws := by
      rintro hn ⟨before, name, after, rfl, hpermits, hbefore⟩
      exact ⟨n :: before, name, after, rfl, hpermits, List.forall_mem_cons.2 ⟨hn, hbefore⟩⟩
    have hcons : verdict policies path capability n ≠ .permits →
        (∃ before name after, n :: names = before ++ name :: after ∧
          verdict policies path capability name = .permits ∧
          ∀ n' ∈ before, verdict policies path capability n' ≠ .throws) →
        verdict policies path capability n ≠ .throws ∧
          ∃ before name after, names = before ++ name :: after ∧
            verdict policies path capability name = .permits ∧
            ∀ n' ∈ before, verdict policies path capability n' ≠ .throws := by
      rintro hn ⟨before, name, after, heq, hpermits, hbefore⟩
      cases before with
      | nil =>
        obtain ⟨rfl, rfl⟩ := List.cons_eq_cons.1 heq
        exact absurd hpermits hn
      | cons n' before =>
        obtain ⟨rfl, rfl⟩ := List.cons_eq_cons.1 heq
        rw [List.forall_mem_cons] at hbefore
        exact ⟨hbefore.1, before, name, after, rfl, hpermits, hbefore.2⟩
    unfold checkPolicies
    cases hn : verdict policies path capability n with
    | permits => exact iff_of_true rfl ⟨[], n, names, rfl, hn, by simp⟩
    | silent =>
      refine ih.trans ⟨hrest (by simp [hn]), fun h => (hcons (by simp [hn]) h).2⟩
    | denies allowed =>
      refine ih.trans ⟨hrest (by simp [hn]), fun h => (hcons (by simp [hn]) h).2⟩
    | throws =>
      refine iff_of_false (by simp) fun h => ?_
      exact (hcons (by simp [hn]) h).1 hn

/-- A request is permitted when a policy of a role of the subject permits it, and no name
    before it throws. -/
theorem checkRBACPolicy_eq_ok {rbac : RBACRecord} {sub : Option String} {path method : String} :
    checkRBACPolicy rbac sub path method = .ok () ↔
      ∃ capability, methodCapability method = some capability ∧
        ∃ before name after, matchingPolicies rbac sub = before ++ name :: after ∧
          verdict rbac.policies path capability name = .permits ∧
          ∀ n ∈ before, verdict rbac.policies path capability n ≠ .throws := by
  unfold checkRBACPolicy
  cases methodCapability method with
  | none => simp
  | some capability =>
    dsimp only
    split_ifs with hempty
    · refine iff_of_false (by simp) ?_
      rintro ⟨_, _, before, name, after, heq, _⟩
      rw [List.isEmpty_iff.1 hempty] at heq
      simp at heq
    · rw [checkPolicies_eq_ok]
      simp

/-- The subject has a role, if it is permitted. -/
theorem exists_role_of_ok {rbac : RBACRecord} {sub : Option String} {path method : String}
    (h : checkRBACPolicy rbac sub path method = .ok ()) :
    ∃ capability, methodCapability method = some capability ∧
      ∃ role ∈ rbac.roles, some role.2.definition.sub = sub ∧
        ∃ name ∈ role.2.definition.policies,
          verdict rbac.policies path capability name = .permits := by
  obtain ⟨capability, hcapability, before, name, after, heq, hpermits, _⟩ :=
    checkRBACPolicy_eq_ok.1 h
  have hmem : name ∈ matchingPolicies rbac sub := by
    rw [heq]
    exact List.mem_append_right _ List.mem_cons_self
  obtain ⟨role, hrole, hname⟩ := List.mem_flatMap.1 hmem
  split_ifs at hname with hsub
  · exact ⟨capability, hcapability, role, (objectEntries_perm _).mem_iff.1 hrole, hsub, name,
      hname, hpermits⟩
  · cases hname

end ComputeContract
