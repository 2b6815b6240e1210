import ComputeContract.Plc.Authorization

/-!
# Resolving a did

A did is resolved from its current operations, one after the other: the verification methods and
the services of a later one go over those of an earlier one, and the names are added up. What
the validator admits is not always what this can take: the names may be missing, and what is in
the verification methods and in the services may be anything.

* `resolveDidDocument`: the document of the current operations;
* `accumulate_layered`: an operation lays its values over those before it;
* `answers_iff`: when a did is answered for, after any posts.
-/

namespace ComputeContract.Plc

open AssocList

/-! ## The document -/

structure VerificationMethod where
  id : String
  controller : String
  publicKeyMultibase : String

structure Service where
  id : String
  type : Option Json
  serviceEndpoint : Option Json

structure DidDocument where
  id : String
  alsoKnownAs : List Json
  verificationMethod : List VerificationMethod
  service : List Service

/-- `{ ...v }` -/
def spread : Option Json → List (String × Json)
  | some (.object fields) => fields
  | some (.array items) => items.zipIdx.map fun item => (toString item.2, item.1)
  | some (.string s) => s.toList.zipIdx.map fun c => (toString c.2, .string (String.ofList [c.1]))
  | _ => []

/-- `[...v]`, which throws if `v` cannot be iterated over. -/
def spreadItems : Option Json → Option (List Json)
  | some (.array items) => some items
  | some (.string s) => some (s.toList.map fun c => .string (String.ofList [c]))
  | _ => none

/-- The two values are the same element of a `Set`: objects are by their identity. -/
def sameElement : Json → Json → Bool
  | .null, .null => true
  | .bool b, .bool b' => b = b'
  | .number n, .number n' => n = n'
  | .infinite s, .infinite s' => s = s'
  | .string s, .string s' => s = s'
  | _, _ => false

def dedupe (arr : List Json) : List Json :=
  arr.foldl (fun kept v => if kept.any (sameElement v) then kept else kept ++ [v]) []

/-- What the operations so far add up to. -/
structure Accumulated where
  verificationMethods : List (String × Json)
  alsoKnownAs : List Json
  services : List (String × Json)

/-- The signing key of a legacy operation, and its service; what is not there throws like `null`
    later. -/
def legacyMethods (op : Json) : List (String × Json) :=
  [("atproto", (field op "signingKey").getD .null)]

def legacyServices (op : Json) : List (String × Json) :=
  [("atproto_pds", .object [("type", .string "AtprotoPersonalDataServer"),
    ("endpoint", (field op "service").getD .null)])]

/-- One operation more; `none` if it throws. -/
def accumulate (acc : Accumulated) (op : Json) : Option Accumulated :=
  if opType op = some "plc_operation" then
    (spreadItems (field op "alsoKnownAs")).map fun names => {
      verificationMethods := setAll (spread (field op "verificationMethods")) acc.verificationMethods
      alsoKnownAs := dedupe (acc.alsoKnownAs ++ names)
      services := setAll (spread (field op "services")) acc.services }
  else if opType op = some "create" then
    let handle := (asString (field op "handle")).getD ""
    some {
      verificationMethods := setAll acc.verificationMethods (legacyMethods op)
      alsoKnownAs :=
        if handle = "" then acc.alsoKnownAs else dedupe (acc.alsoKnownAs ++ [.string handle])
      services := setAll acc.services (legacyServices op) }
  else some acc

def nothing : Accumulated := ⟨[], [], []⟩

/-- `key.startsWith` throws if the key is no string. -/
def methodOf (did : String) : String × Json → Option VerificationMethod
  | (id, .string key) => some ⟨"#" ++ id, did,
      if "did:key:".toList.isPrefixOf key.toList then String.ofList (key.toList.drop 8) else key⟩
  | _ => none

/-- `s.type` throws if the service is `null`. -/
def serviceOf : String × Json → Option Service
  | (_, .null) => none
  | (id, s) => some ⟨"#" ++ id, field s "type", field s "endpoint"⟩

/-- The document; `some none` is `null`, and `none` is thrown. -/
def resolveDidDocument (did : String) (currentOps : List LogEntry) : Option (Option DidDocument) :=
  match currentOps.getLast? with
  | none => some none
  | some lastOp =>
    if opType lastOp.operation = some "plc_tombstone" then some none
    else do
      let acc ← currentOps.foldlM (fun acc entry => accumulate acc entry.operation) nothing
      let vm ← (objectEntries acc.verificationMethods).mapM (methodOf did)
      let svc ← (objectEntries acc.services).mapM serviceOf
      return some ⟨did, acc.alsoKnownAs, vm, svc⟩

inductive Resolution
  | document (doc : DidDocument)
  /-- 404 -/
  | notRegistered
  /-- 410 -/
  | notAvailable
  /-- The handler throws. -/
  | failed

/-- The handler answers. -/
def Resolution.answers : Resolution → Bool
  | failed => false
  | _ => true

def handleResolveDid (store : PlcStore) (did : String) : Resolution :=
  let ops := getCurrentOps store did
  match ops.getLast? with
  | none => .notRegistered
  | some lastOp =>
    if opType lastOp.operation = some "plc_tombstone" then .notAvailable
    else
      match resolveDidDocument did ops with
      | none => .failed
      | some none => .notAvailable
      | some (some doc) => .document doc

/-! ## What can be resolved -/

/-- The value of `id` under a field of an operation. -/
def given (name id : String) (op : Json) : Option Json :=
  if opType op = some "plc_operation" then (spread (field op name)).reverse.lookup id else none

/-- The last value of `id` under a field of the operations. -/
def lastGiven (name id : String) : List Json → Option Json
  | [] => none
  | op :: ops => (lastGiven name id ops).or (given name id op)

/-- The operations give a document: all have names, and of the values of a verification method
    and of a service the last is a string and not `null`. -/
structure Buildable (ops : List Json) : Prop where
  alsoKnownAs : ∀ op ∈ ops, opType op = some "plc_operation" → (field op "alsoKnownAs").isSome
  verificationMethods : ∀ id v, lastGiven "verificationMethods" id ops = some v → isString (some v)
  services : ∀ id v, lastGiven "services" id ops = some v → isNull (some v) = false

/-- The did is not registered, or not available, or has a document. -/
def Resolvable (ops : List Json) : Prop :=
  ∀ last ∈ ops.getLast?, opType last ≠ some "plc_tombstone" → Buildable ops

/-! ## Values over values -/

variable {acc : Accumulated} {op : Json} {ops : List Json} {name : String}
  {legacy : Json → List (String × Json)} {m : List (String × Json)}

/-- The values of an operation over those before it; those of a legacy one come under them. -/
def layered (name : String) (legacy : Json → List (String × Json)) (m : List (String × Json))
    (op : Json) : List (String × Json) :=
  if opType op = some "plc_operation" then setAll (spread (field op name)) m
  else if opType op = some "create" then setAll m (legacy op)
  else m

/-- The names can be added up. -/
def Named (op : Json) : Prop :=
  opType op = some "plc_operation" → (spreadItems (field op "alsoKnownAs")).isSome

theorem accumulate_layered (acc : Accumulated) (op : Json) :
    Named op ∧ (∃ names, accumulate acc op = some
        ⟨layered "verificationMethods" legacyMethods acc.verificationMethods op, names,
          layered "services" legacyServices acc.services op⟩) ∨
      ¬ Named op ∧ accumulate acc op = none := by
  unfold accumulate layered Named
  by_cases hplc : opType op = some "plc_operation"
  · rw [if_pos hplc, if_pos hplc, if_pos hplc]
    cases spreadItems (field op "alsoKnownAs") with
    | none => exact .inr ⟨fun h => Bool.false_ne_true (h hplc), rfl⟩
    | some names => exact .inl ⟨fun _ => rfl, _, rfl⟩
  · refine .inl ⟨fun h => absurd h hplc, ?_⟩
    rw [if_neg hplc, if_neg hplc, if_neg hplc]
    split_ifs
    · exact ⟨_, rfl⟩
    · exact ⟨_, rfl⟩

theorem foldlM_accumulate (ops : List Json) (acc : Accumulated) :
    (∀ op ∈ ops, Named op) ∧ (∃ names, ops.foldlM accumulate acc = some
        ⟨ops.foldl (layered "verificationMethods" legacyMethods) acc.verificationMethods, names,
          ops.foldl (layered "services" legacyServices) acc.services⟩) ∨
      ¬ (∀ op ∈ ops, Named op) ∧ ops.foldlM accumulate acc = none := by
  induction ops generalizing acc with
  | nil => exact .inl ⟨fun op hop => absurd hop List.not_mem_nil, _, rfl⟩
  | cons op ops ih =>
    rw [List.forall_mem_cons, List.foldlM_cons]
    rcases accumulate_layered acc op with ⟨hnamed, names, hacc⟩ | ⟨hnamed, hacc⟩
    · rw [hacc]
      exact (ih _).imp (fun h => ⟨⟨hnamed, h.1⟩, h.2⟩) fun h => ⟨fun hall => h.1 hall.2, h.2⟩
    · rw [hacc]
      exact .inr ⟨fun hall => hnamed hall.1, rfl⟩

theorem lookup_layered (hm : (keys m).Nodup) (op : Json) (id : String) :
    (layered name legacy m op).lookup id = ((given name id op).or (m.lookup id)).or
      (if opType op = some "create" then (legacy op).lookup id else none) := by
  unfold layered given
  by_cases hplc : opType op = some "plc_operation"
  · have hcreate : opType op ≠ some "create" := by
      rw [hplc]
      decide
    rw [if_pos hplc, if_pos hplc, if_neg hcreate, lookup_setAll, Option.or_none]
  · rw [if_neg hplc, if_neg hplc, Option.none_or]
    split_ifs
    · rw [lookup_setAll, lookup_reverse hm]
    · rw [Option.or_none]

theorem nodup_keys_layered (hlegacy : ∀ op, (keys (legacy op)).Nodup) (hm : (keys m).Nodup)
    (op : Json) : (keys (layered name legacy m op)).Nodup := by
  unfold layered
  split_ifs
  · exact nodup_keys_setAll _ hm
  · exact nodup_keys_setAll _ (hlegacy op)
  · exact hm

/-- Where all values of the legacy operations are good, all values are in the end when those that
    the operations give last are, and of the others those that were there. -/
theorem foldl_layered_iff {P : Json → Prop} (hnodup : ∀ op, (keys (legacy op)).Nodup)
    (hlegacy : ∀ op ∈ ops, opType op = some "create" → ∀ e ∈ legacy op, P e.2)
    (hm : (keys m).Nodup) :
    (∀ e ∈ ops.foldl (layered name legacy) m, P e.2) ↔
      (∀ id v, lastGiven name id ops = some v → P v) ∧
        ∀ id v, lastGiven name id ops = none → m.lookup id = some v → P v := by
  induction ops generalizing m with
  | nil =>
    refine ⟨fun h => ⟨nofun, fun id v _ hv => h (id, v) (mem_of_lookup hv)⟩, fun h e he => ?_⟩
    exact h.2 e.1 e.2 rfl ((mem_iff_lookup hm).1 he)
  | cons op ops ih =>
    rw [List.forall_mem_cons] at hlegacy
    rw [List.foldl_cons, ih hlegacy.2 (nodup_keys_layered hnodup hm op)]
    simp only [lookup_layered hm, lastGiven]
    constructor
    · rintro ⟨hlast, hrest⟩
      refine ⟨fun id v hv => ?_, fun id v hnone hv => ?_⟩
      · cases hl : lastGiven name id ops with
        | some w =>
          rw [hl, Option.some_or] at hv
          exact hlast id v (hl.trans hv)
        | none =>
          rw [hl, Option.none_or] at hv
          exact hrest id v hl (by rw [hv, Option.some_or, Option.some_or])
      · obtain ⟨hl, hg⟩ := Option.or_eq_none_iff.1 hnone
        exact hrest id v hl (by rw [hg, hv, Option.none_or, Option.some_or])
    · rintro ⟨hlast, hrest⟩
      refine ⟨fun id v hv => hlast id v (by rw [hv, Option.some_or]), fun id v hl hv => ?_⟩
      cases hg : given name id op with
      | some w =>
        rw [hg, Option.some_or, Option.some_or] at hv
        exact hlast id v (by rw [hl, hg, Option.none_or, hv])
      | none =>
        rw [hg, Option.none_or] at hv
        cases hlookup : m.lookup id with
        | some w =>
          rw [hlookup, Option.some_or] at hv
          exact hrest id v (by rw [hl, hg, Option.none_or]) (hlookup.trans hv)
        | none =>
          rw [hlookup, Option.none_or] at hv
          split_ifs at hv with hcreate
          exact hlegacy.1 hcreate (id, v) (mem_of_lookup hv)

theorem foldl_layered_nil_iff {P : Json → Prop} (hnodup : ∀ op, (keys (legacy op)).Nodup)
    (hlegacy : ∀ op ∈ ops, opType op = some "create" → ∀ e ∈ legacy op, P e.2) :
    (∀ e ∈ ops.foldl (layered name legacy) [], P e.2) ↔
      ∀ id v, lastGiven name id ops = some v → P v :=
  (@foldl_layered_iff _ _ _ [] _ hnodup hlegacy List.nodup_nil).trans (and_iff_left fun _ _ _ h => by cases h)

/-! ## The validator -/

variable {deps : HandlerDeps} {store : PlcStore} {did : String}

theorem firstFailing_eq_none {checks : List (Bool × String)} :
    firstFailing checks = none ↔ ∀ check ∈ checks, check.1 = true := by
  induction checks with
  | nil => exact iff_of_true rfl fun _ h => absurd h List.not_mem_nil
  | cons check checks ih =>
    obtain ⟨ok, message⟩ := check
    rw [List.forall_mem_cons, firstFailing]
    cases ok with
    | false => exact iff_of_false nofun fun h => Bool.false_ne_true h.1
    | true => exact ih.trans (and_iff_right rfl).symm

/-- What document construction needs of an operation that the validator admits. -/
theorem of_valid (h : validateOperationStructure deps op = none) :
    (opType op = some "plc_operation" →
      (field op "alsoKnownAs").isNone ∨ isArray (field op "alsoKnownAs")) ∧
    (opType op = some "create" → isString (field op "signingKey")) := by
  constructor
  · intro htype
    cases op with
    | object fields =>
      rw [validateOperationStructure, if_pos htype] at h
      have hnames := firstFailing_eq_none.1 h _
        (List.mem_cons_of_mem _ (List.mem_cons_of_mem _ List.mem_cons_self))
      rwa [Bool.or_eq_true] at hnames
    | _ => cases htype
  · intro htype
    cases op with
    | object fields =>
      rw [validateOperationStructure, htype, if_neg (by decide), if_neg (by decide), if_pos rfl] at h
      exact firstFailing_eq_none.1 h _ List.mem_cons_self
    | _ => cases htype

theorem isString_legacyMethods (h : validateOperationStructure deps op = none)
    (hcreate : opType op = some "create") {e : String × Json} (he : e ∈ legacyMethods op) :
    isString (some e.2) := by
  obtain rfl := List.mem_singleton.1 he
  have hkey := (of_valid h).2 hcreate
  dsimp only
  cases hfield : field op "signingKey" with
  | none =>
    rw [hfield] at hkey
    cases hkey
  | some v =>
    rw [hfield] at hkey
    exact hkey

/-- Every operation of the store passed the validator. -/
def Validated (deps : HandlerDeps) (store : PlcStore) : Prop :=
  ∀ did, ∀ entry ∈ getAuditLog store did, validateOperationStructure deps entry.operation = none

theorem validated_nullifyOps (h : Validated deps store) (did : String) (cids : List String) :
    Validated deps (nullifyOps store did cids) := by
  intro did' entry hentry
  rw [getAuditLog_nullifyOps] at hentry
  split_ifs at hentry
  · obtain ⟨entry', hentry', rfl⟩ := List.mem_map.1 hentry
    have hop : (entry'.nullify cids).operation = entry'.operation := by
      rw [LogEntry.nullify]
      split_ifs <;> rfl
    rw [hop]
    exact h did' entry' hentry'
  · exact h did' entry hentry

theorem validated_handlePost (h : Validated deps store) (post : Post) :
    Validated deps (handlePost deps store post) := by
  obtain ⟨did, body⟩ := post
  cases body with
  | none => exact h
  | some op =>
    unfold handlePost handleCreateOp
    dsimp only
    cases hstruct : validateOperationStructure deps op with
    | some message => exact h
    | none =>
      dsimp only
      cases checkOperation deps op (getAuditLog store did) (getCurrentOps store did) with
      | some response => exact h
      | none =>
        dsimp only
        cases operationCid deps op with
        | none => exact h
        | some cid =>
          intro did' entry hentry
          have hover : Validated deps (nullifyOverridden store did op (getCurrentOps store did)) := by
            rw [nullifyOverridden]
            split
            · exact validated_nullifyOps h did _
            · exact h
          rw [getAuditLog_insertOp] at hentry
          split_ifs at hentry
          · rcases List.mem_append.1 hentry with hentry | hentry
            · exact hover did' entry hentry
            · rw [List.mem_singleton.1 hentry]
              exact hstruct
          · exact hover did' entry hentry

theorem validated_run (posts : List Post) (h : Validated deps store) :
    Validated deps (posts.foldl (handlePost deps) store) := by
  induction posts generalizing store with
  | nil => exact h
  | cons post posts ih => exact ih (validated_handlePost h post)

/-! ## Every run -/

theorem named_iff (h : validateOperationStructure deps op = none) :
    Named op ↔ opType op = some "plc_operation" → (field op "alsoKnownAs").isSome := by
  refine forall_congr' fun htype => ?_
  have hnames := (of_valid h).1 htype
  cases hfield : field op "alsoKnownAs" with
  | none => exact iff_of_false nofun nofun
  | some v =>
    rw [hfield] at hnames
    cases v with
    | array items => exact iff_of_true rfl rfl
    | _ => exact absurd (hnames.resolve_left nofun) nofun

theorem isSome_methodOf (did : String) (e : String × Json) :
    (methodOf did e).isSome ↔ isString (some e.2) := by
  obtain ⟨id, v⟩ := e
  cases v with
  | string key => exact iff_of_true rfl rfl
  | _ => exact iff_of_false nofun nofun

theorem isSome_serviceOf (e : String × Json) : (serviceOf e).isSome ↔ isNull (some e.2) = false := by
  obtain ⟨id, v⟩ := e
  cases v with
  | null => exact iff_of_false nofun nofun
  | _ => exact iff_of_true rfl rfl

theorem isSome_bind₂ {α β γ : Type} {x : Option α} {y : Option β} {f : α → β → γ} :
    (x.bind fun a => y.bind fun b => some (f a b)).isSome ↔ x.isSome ∧ y.isSome := by
  cases x with
  | none => exact iff_of_false nofun fun h => Bool.false_ne_true h.1
  | some a =>
    cases y with
    | none => exact iff_of_false nofun fun h => Bool.false_ne_true h.2
    | some b => exact iff_of_true rfl ⟨rfl, rfl⟩

theorem isSome_mapM {α β : Type} {f : α → Option β} {l : List α} :
    (l.mapM f).isSome ↔ ∀ a ∈ l, (f a).isSome := by
  induction l with
  | nil => exact iff_of_true rfl fun _ h => absurd h List.not_mem_nil
  | cons a l ih =>
    rw [List.mapM_cons, List.forall_mem_cons, ← ih]
    exact isSome_bind₂

/-- What comes of the operations, when the last one is no tombstone. -/
theorem resolve_isSome {log : List LogEntry} {last : LogEntry} (hlast : log.getLast? = some last)
    (htype : opType last.operation ≠ some "plc_tombstone")
    (hvalid : ∀ entry ∈ log, validateOperationStructure deps entry.operation = none) :
    (resolveDidDocument did log).isSome ↔ Buildable (log.map LogEntry.operation) := by
  have hops : ∀ op ∈ log.map LogEntry.operation, validateOperationStructure deps op = none :=
    List.forall_mem_map.2 hvalid
  have hmethods := @foldl_layered_nil_iff (log.map LogEntry.operation) "verificationMethods"
    legacyMethods (fun v => isString (some v)) (fun _ => List.nodup_singleton _)
    fun op hop hcreate e he => isString_legacyMethods (hops op hop) hcreate he
  have hservices := @foldl_layered_nil_iff (log.map LogEntry.operation) "services"
    legacyServices (fun v => isNull (some v) = false) (fun _ => List.nodup_singleton _)
    fun op _ _ e he => by rw [List.mem_singleton.1 he]; rfl
  have hnamed : (∀ op ∈ log.map LogEntry.operation, Named op) ↔
      ∀ op ∈ log.map LogEntry.operation, opType op = some "plc_operation" →
        (field op "alsoKnownAs").isSome :=
    forall₂_congr fun op hop => named_iff (hops op hop)
  have hfold : log.foldlM (fun acc entry => accumulate acc entry.operation) nothing =
      (log.map LogEntry.operation).foldlM accumulate nothing := List.foldlM_map.symm
  rw [resolveDidDocument, hlast]
  dsimp only
  rw [if_neg htype, hfold]
  rcases foldlM_accumulate (log.map LogEntry.operation) nothing with ⟨hall, names, hacc⟩ | ⟨hall, hacc⟩
  · have hvm : ((objectEntries ((log.map LogEntry.operation).foldl
        (layered "verificationMethods" legacyMethods) [])).mapM (methodOf did)).isSome ↔
          ∀ id v, lastGiven "verificationMethods" id (log.map LogEntry.operation) = some v →
            isString (some v) := by
      rw [isSome_mapM, ← hmethods]
      exact forall_congr' fun e =>
        imp_congr (objectEntries_perm _).mem_iff (isSome_methodOf did e)
    have hsvc : ((objectEntries ((log.map LogEntry.operation).foldl
        (layered "services" legacyServices) [])).mapM serviceOf).isSome ↔
          ∀ id v, lastGiven "services" id (log.map LogEntry.operation) = some v →
            isNull (some v) = false := by
      rw [isSome_mapM, ← hservices]
      exact forall_congr' fun e => imp_congr (objectEntries_perm _).mem_iff (isSome_serviceOf e)
    have hbuildable : Buildable (log.map LogEntry.operation) ↔ _ ∧ _ :=
      ⟨fun h => ⟨hvm.2 h.verificationMethods, hsvc.2 h.services⟩,
        fun h => ⟨hnamed.1 hall, hvm.1 h.1, hsvc.1 h.2⟩⟩
    rw [hacc, hbuildable]
    exact isSome_bind₂
  · rw [hacc]
    exact iff_of_false nofun fun h => hall (hnamed.2 h.alsoKnownAs)

/-- After any posts, a did is answered for with a document, or as not registered or not
    available, exactly when its current operations are `Resolvable`. -/
theorem answers_iff (deps : HandlerDeps) (posts : List Post) (did : String) :
    (handleResolveDid (posts.foldl (handlePost deps) []) did).answers ↔
      Resolvable ((getCurrentOps (posts.foldl (handlePost deps) []) did).map LogEntry.operation) := by
  have hvalid : Validated deps (posts.foldl (handlePost deps) []) :=
    validated_run posts fun did entry hentry => by cases hentry
  generalize posts.foldl (handlePost deps) [] = store at hvalid ⊢
  have hlog : ∀ entry ∈ getCurrentOps store did,
      validateOperationStructure deps entry.operation = none := fun entry hentry =>
    hvalid did entry (List.mem_filter.1 hentry).1
  rw [handleResolveDid, Resolvable, List.getLast?_map]
  cases hlast : (getCurrentOps store did).getLast? with
  | none => exact iff_of_true rfl nofun
  | some last =>
    dsimp only [Option.map_some]
    by_cases htype : opType last.operation = some "plc_tombstone"
    · rw [if_pos htype]
      refine iff_of_true rfl fun op hop hne => ?_
      rw [← Option.some.inj hop] at hne
      exact absurd htype hne
    · have hsome := @resolve_isSome deps did _ _ hlast htype hlog
      rw [if_neg htype]
      have hright : (∀ op ∈ some last.operation, opType op ≠ some "plc_tombstone" →
          Buildable ((getCurrentOps store did).map LogEntry.operation)) ↔
            Buildable ((getCurrentOps store did).map LogEntry.operation) :=
        ⟨fun h => h _ rfl htype, fun h _ _ _ => h⟩
      rw [hright, ← hsome]
      cases resolveDidDocument did (getCurrentOps store did) with
      | none => exact iff_of_false nofun nofun
      | some doc =>
        cases doc with
        | none => exact iff_of_true rfl rfl
        | some doc => exact iff_of_true rfl rfl

/-- An operation without names is admitted, and its did cannot be resolved. -/
theorem not_answers : ¬ ∀ (deps : HandlerDeps) (posts : List Post) (did : String),
    (handleResolveDid (posts.foldl (handlePost deps) []) did).answers := by
  intro h
  have hanswers := h sampleDeps [⟨"did:plc:a", some sampleGenesis⟩] "did:plc:a"
  exact absurd hanswers (by decide +kernel)

end ComputeContract.Plc
