import ComputeContract.Plc.Resolution

/-!
# The document and the last operation

An operation of a did is its full state, but the document is made of all current operations.
It is the document of the last one when nothing is left of those before it.

* `lookup_foldl_layered`: what the operations show under an id, from the operations alone;
* `mem_alsoKnownAs_iff`: the names are those of any operation;
* `entriesOf_iff`: when a document has the entries of the last operation.
-/

namespace ComputeContract.Plc

open AssocList

/-! ## The entries of an operation -/

/-- The value of `id` in a legacy operation. -/
def givenLegacy (legacy : Json → List (String × Json)) (id : String) (op : Json) : Option Json :=
  if opType op = some "create" then (legacy op).lookup id else none

/-- What operations show under an id: the last value that one gives, or else that of the first
    legacy operation. -/
def shown (name : String) (legacy : Json → List (String × Json)) (id : String) (ops : List Json) :
    Option Json :=
  (lastGiven name id ops).or (ops.findSome? (givenLegacy legacy id))

/-- The names of an operation. -/
def namesOf (op : Json) : List Json :=
  if opType op = some "plc_operation" then (spreadItems (field op "alsoKnownAs")).getD []
  else if opType op = some "create" then
    let handle := (asString (field op "handle")).getD ""
    if handle = "" then [] else [.string handle]
  else []

/-- The entries are those of one operation, by itself. -/
structure EntriesOf (did : String) (op : Json) (doc : DidDocument) : Prop where
  verificationMethod : ∀ vm, vm ∈ doc.verificationMethod ↔
    ∃ id v, shown "verificationMethods" legacyMethods id [op] = some v ∧
      methodOf did (id, v) = some vm
  alsoKnownAs : ∀ name, name ∈ doc.alsoKnownAs ↔ name ∈ namesOf op
  service : ∀ svc, svc ∈ doc.service ↔
    ∃ id v, shown "services" legacyServices id [op] = some v ∧ serviceOf (id, v) = some svc

/-- Under every id that the operations before it show, the last operation has a value of its own;
    a legacy one, which goes under them, has the same entry. -/
def Restated {β : Type} (name : String) (legacy : Json → List (String × Json))
    (entry : String × Json → Option β) (earlier : List Json) (last : Json) : Prop :=
  ∀ id v, shown name legacy id earlier = some v →
    if opType last = some "plc_operation" then (given name id last).isSome
    else ∃ v', (legacy last).lookup id = some v' ∧ entry (id, v') = entry (id, v)

/-- Nothing is left of the operations before the last one. -/
structure Supersedes (did : String) (earlier : List Json) (last : Json) : Prop where
  verificationMethods :
    Restated "verificationMethods" legacyMethods (methodOf did) earlier last
  alsoKnownAs : ∀ op ∈ earlier, ∀ name ∈ namesOf op, name ∈ namesOf last
  services : Restated "services" legacyServices serviceOf earlier last

/-! ## Values -/

variable {name id : String} {legacy : Json → List (String × Json)} {ops earlier : List Json}
  {op last : Json}

theorem lastGiven_append (ops ops' : List Json) :
    lastGiven name id (ops ++ ops') = (lastGiven name id ops').or (lastGiven name id ops) := by
  induction ops with
  | nil => exact (Option.or_none).symm
  | cons op ops ih => rw [List.cons_append, lastGiven, lastGiven, ih, Option.or_assoc]

theorem given_of_create (h : opType last = some "create") : given name id last = none := by
  rw [given, h, if_neg (by decide)]

theorem shown_concat (h : opType last = some "plc_operation") :
    shown name legacy id (earlier ++ [last]) =
      (given name id last).or (shown name legacy id earlier) := by
  have hlegacy : givenLegacy legacy id last = none := by
    rw [givenLegacy, h, if_neg (by decide)]
  rw [shown, shown, lastGiven_append, lastGiven, lastGiven, Option.none_or, Option.or_assoc,
    List.findSome?_append, List.findSome?_singleton, hlegacy, Option.or_none]

theorem shown_singleton (h : opType last = some "plc_operation") :
    shown name legacy id [last] = given name id last :=
  (@shown_concat name id legacy [] last h).trans Option.or_none

theorem shown_concat_create (h : opType last = some "create") :
    shown name legacy id (earlier ++ [last]) =
      (shown name legacy id earlier).or ((legacy last).lookup id) := by
  rw [shown, shown, lastGiven_append, lastGiven, lastGiven, given_of_create h, Option.none_or,
    Option.none_or, Option.or_assoc, List.findSome?_append, List.findSome?_singleton, givenLegacy,
    if_pos h]

theorem foldl_layered (hnodup : ∀ op, (keys (legacy op)).Nodup) (ops : List Json)
    {m : List (String × Json)} (hm : (keys m).Nodup) :
    (keys (ops.foldl (layered name legacy) m)).Nodup ∧
      (ops.foldl (layered name legacy) m).lookup id =
        ((lastGiven name id ops).or (m.lookup id)).or (ops.findSome? (givenLegacy legacy id)) := by
  induction ops generalizing m with
  | nil => exact ⟨hm, by rw [lastGiven, List.findSome?_nil, Option.none_or, Option.or_none]; rfl⟩
  | cons op ops ih =>
    obtain ⟨hkeys, hlookup⟩ := ih (nodup_keys_layered hnodup hm op)
    refine ⟨hkeys, ?_⟩
    rw [List.foldl_cons, hlookup, lookup_layered hm, lastGiven, List.findSome?_cons]
    change ((lastGiven name id ops).or (((given name id op).or (m.lookup id)).or
      (givenLegacy legacy id op))).or _ = _
    cases givenLegacy legacy id op with
    | none => simp only [Option.or_none, Option.or_assoc]
    | some v => simp only [Option.or_assoc, Option.some_or]

/-- The values that lie over each other, by their ids. -/
theorem lookup_foldl_layered (hnodup : ∀ op, (keys (legacy op)).Nodup) (ops : List Json)
    (id : String) :
    (ops.foldl (layered name legacy) []).lookup id = shown name legacy id ops := by
  rw [(foldl_layered (m := []) hnodup ops List.nodup_nil).2, List.lookup_nil, Option.or_none, shown]

/-! ## Names -/

theorem eq_of_sameElement {v v' : Json} (h : sameElement v v' = true) : v = v' := by
  cases v <;> cases v' <;> simp_all [sameElement]

theorem mem_dedupe {arr : List Json} {v : Json} : v ∈ dedupe arr ↔ v ∈ arr := by
  have hfold : ∀ kept : List Json, v ∈ arr.foldl
      (fun kept v => if kept.any (sameElement v) then kept else kept ++ [v]) kept ↔
        v ∈ kept ∨ v ∈ arr := by
    induction arr with
    | nil => simp
    | cons w arr ih =>
      intro kept
      rw [List.foldl_cons, ih, List.mem_cons]
      split_ifs with hany
      · -- What is dropped is there already.
        obtain ⟨w', hw', hsame⟩ := List.any_eq_true.1 hany
        rw [← eq_of_sameElement hsame] at hw'
        exact ⟨fun h => h.imp_right .inr, fun h => h.elim .inl fun h =>
          h.elim (fun heq => .inl (heq ▸ hw')) .inr⟩
      · rw [List.mem_append, List.mem_singleton, or_assoc]
  rw [dedupe, hfold]
  exact or_iff_right List.not_mem_nil

theorem mem_accumulate {acc acc' : Accumulated} (h : accumulate acc op = some acc') (v : Json) :
    v ∈ acc'.alsoKnownAs ↔ v ∈ acc.alsoKnownAs ∨ v ∈ namesOf op := by
  unfold accumulate at h
  unfold namesOf
  by_cases hplc : opType op = some "plc_operation"
  · rw [if_pos hplc] at h ⊢
    obtain ⟨names, hnames, rfl⟩ := Option.map_eq_some_iff.1 h
    rw [hnames, mem_dedupe, List.mem_append]
    rfl
  · rw [if_neg hplc] at h ⊢
    split_ifs at h ⊢ with hcreate
    · obtain rfl := Option.some.inj h
      dsimp only
      split_ifs
      · exact (or_iff_left List.not_mem_nil).symm
      · rw [mem_dedupe, List.mem_append]
    · rw [← Option.some.inj h]
      exact (or_iff_left List.not_mem_nil).symm

theorem mem_alsoKnownAs_iff {acc acc' : Accumulated} (h : ops.foldlM accumulate acc = some acc')
    (v : Json) : v ∈ acc'.alsoKnownAs ↔ v ∈ acc.alsoKnownAs ∨ ∃ op ∈ ops, v ∈ namesOf op := by
  induction ops generalizing acc with
  | nil =>
    rw [← Option.some.inj h]
    simp
  | cons op ops ih =>
    rw [List.foldlM_cons] at h
    obtain ⟨acc₁, hacc₁, h⟩ := Option.bind_eq_some_iff.1 h
    rw [ih h, mem_accumulate hacc₁, or_assoc]
    simp only [List.mem_cons, exists_eq_or_imp]

/-! ## Entries -/

section

variable {β : Type} {entry : String × Json → Option β} {b : β}

/-- One of the operations' entries. -/
def Shows (name : String) (legacy : Json → List (String × Json)) (entry : String × Json → Option β)
    (ops : List Json) (b : β) : Prop :=
  ∃ id v, shown name legacy id ops = some v ∧ entry (id, v) = some b

/-- The last operation lies over those before it, a legacy one under them. -/
theorem shown_cases (htype : opType last = some "plc_operation" ∨ opType last = some "create")
    (id : String) :
    (opType last = some "plc_operation" ∧ shown name legacy id [last] = given name id last ∧
        shown name legacy id (earlier ++ [last]) =
          (given name id last).or (shown name legacy id earlier)) ∨
      (opType last ≠ some "plc_operation" ∧ shown name legacy id [last] = (legacy last).lookup id ∧
        shown name legacy id (earlier ++ [last]) =
          (shown name legacy id earlier).or ((legacy last).lookup id)) := by
  rcases htype with hplc | hcreate
  · exact .inl ⟨hplc, shown_singleton hplc, shown_concat hplc⟩
  · refine .inr ⟨by rw [hcreate]; decide, ?_, shown_concat_create hcreate⟩
    exact (@shown_concat_create name id legacy [] last hcreate).trans Option.none_or

/-- Entries tell their ids apart: they are those of the last operation when what is before it is
    restated. -/
theorem shows_iff_restated
    (htype : opType last = some "plc_operation" ∨ opType last = some "create")
    (hid : ∀ e e' b, entry e = some b → entry e' = some b → e.1 = e'.1)
    (hentry : ∀ id v, shown name legacy id (earlier ++ [last]) = some v → (entry (id, v)).isSome) :
    (∀ b, Shows name legacy entry (earlier ++ [last]) b ↔ Shows name legacy entry [last] b) ↔
      Restated name legacy entry earlier last := by
  constructor
  · intro h id v hv
    rcases @shown_cases name legacy earlier last htype id with
      ⟨hplc, hlast, hall⟩ | ⟨hplc, hlast, hall⟩
    · rw [if_pos hplc]
      cases hgiven : given name id last with
      | some w => rfl
      | none =>
        rw [hgiven, Option.none_or, hv] at hall
        obtain ⟨b, hb⟩ := Option.isSome_iff_exists.1 (hentry id v hall)
        obtain ⟨id', v', hv', hb'⟩ := (h b).1 ⟨id, v, hall, hb⟩
        obtain rfl : id = id' := hid _ _ b hb hb'
        rw [hlast, hgiven] at hv'
        cases hv'
    · rw [if_neg hplc]
      rw [hv, Option.some_or] at hall
      obtain ⟨b, hb⟩ := Option.isSome_iff_exists.1 (hentry id v hall)
      obtain ⟨id', v', hv', hb'⟩ := (h b).1 ⟨id, v, hall, hb⟩
      obtain rfl : id = id' := hid _ _ b hb hb'
      exact ⟨v', hlast ▸ hv', hb'.trans hb.symm⟩
  · intro h b
    refine exists_congr fun id => ?_
    have hid := h id
    rcases @shown_cases name legacy earlier last htype id with
      ⟨hplc, hlast, hall⟩ | ⟨hplc, hlast, hall⟩
    · rw [hlast, hall]
      cases hgiven : given name id last with
      | some w => rw [Option.some_or]
      | none =>
        simp only [if_pos hplc, hgiven] at hid
        have hnone : shown name legacy id earlier = none :=
          Option.eq_none_iff_forall_ne_some.2 fun v hv => Bool.false_ne_true (hid v hv)
        rw [Option.none_or, hnone]
    · rw [hlast, hall]
      cases hearlier : shown name legacy id earlier with
      | none => rw [Option.none_or]
      | some w =>
        simp only [if_neg hplc, hearlier] at hid
        obtain ⟨v', hv', hsame⟩ := hid w rfl
        rw [Option.some_or, hv']
        constructor
        · rintro ⟨v, hv, hb⟩
          rw [← Option.some.inj hv, ← hsame] at hb
          exact ⟨v', rfl, hb⟩
        · rintro ⟨v, hv, hb⟩
          rw [← Option.some.inj hv, hsame] at hb
          exact ⟨w, rfl, hb⟩

end

theorem mem_of_mapM {α β : Type} {f : α → Option β} {l : List α} {bs : List β}
    (h : l.mapM f = some bs) (b : β) : b ∈ bs ↔ ∃ a ∈ l, f a = some b := by
  induction l generalizing bs with
  | nil =>
    rw [← Option.some.inj h]
    simp
  | cons a l ih =>
    rw [List.mapM_cons] at h
    obtain ⟨b₁, hb₁, h⟩ := Option.bind_eq_some_iff.1 h
    obtain ⟨bs₁, hbs₁, h⟩ := Option.bind_eq_some_iff.1 h
    have hhead : b = b₁ ↔ f a = some b := by rw [hb₁, Option.some_inj, eq_comm]
    rw [← Option.some.inj h, List.mem_cons, ih hbs₁, hhead]
    simp only [List.mem_cons, exists_eq_or_imp]

/-- The entries that are made of values which lie over each other. -/
theorem mem_entries_iff {β : Type} {entry : String × Json → Option β} {entries : List β}
    (hnodup : ∀ op, (keys (legacy op)).Nodup)
    (h : (objectEntries (ops.foldl (layered name legacy) [])).mapM entry = some entries) :
    (∀ b, b ∈ entries ↔ Shows name legacy entry ops b) ∧
      ∀ id v, shown name legacy id ops = some v → (entry (id, v)).isSome := by
  have hmem : ∀ id v, (id, v) ∈ objectEntries (ops.foldl (layered name legacy) []) ↔
      shown name legacy id ops = some v := by
    intro id v
    rw [(objectEntries_perm _).mem_iff, ← lookup_foldl_layered hnodup]
    exact mem_iff_lookup (@foldl_layered name id legacy hnodup ops [] List.nodup_nil).1
  refine ⟨fun b => ?_, fun id v hv => ?_⟩
  · rw [mem_of_mapM h]
    refine ⟨fun ⟨e, he, hb⟩ => ⟨e.1, e.2, (hmem _ _).1 he, hb⟩, ?_⟩
    rintro ⟨id, v, hv, hb⟩
    exact ⟨(id, v), (hmem id v).2 hv, hb⟩
  · have hsome : ((objectEntries (ops.foldl (layered name legacy) [])).mapM entry).isSome := by
      rw [h]
      rfl
    exact isSome_mapM.1 hsome _ ((hmem id v).2 hv)

/-! ## The document -/

theorem nodup_legacyMethods (op : Json) : (keys (legacyMethods op)).Nodup := List.nodup_singleton _

theorem nodup_legacyServices (op : Json) : (keys (legacyServices op)).Nodup :=
  List.nodup_singleton _

variable {deps : HandlerDeps} {store : PlcStore} {did : String} {doc : DidDocument}

/-- What a document is made of. -/
theorem of_document (h : handleResolveDid store did = .document doc)
    (hlog : (getCurrentOps store did).map LogEntry.operation = earlier ++ [last]) :
    opType last ≠ some "plc_tombstone" ∧ ∃ names,
      (earlier ++ [last]).foldlM accumulate nothing = some ⟨
        (earlier ++ [last]).foldl (layered "verificationMethods" legacyMethods) [], names,
        (earlier ++ [last]).foldl (layered "services" legacyServices) []⟩ ∧
      doc.alsoKnownAs = names ∧
      (objectEntries ((earlier ++ [last]).foldl
        (layered "verificationMethods" legacyMethods) [])).mapM (methodOf did) =
          some doc.verificationMethod ∧
      (objectEntries ((earlier ++ [last]).foldl (layered "services" legacyServices) [])).mapM
        serviceOf = some doc.service := by
  have hfold : (getCurrentOps store did).foldlM (fun acc entry => accumulate acc entry.operation)
      nothing = (earlier ++ [last]).foldlM accumulate nothing := by
    rw [← hlog]
    exact List.foldlM_map.symm
  obtain ⟨entry, hentry, hop⟩ : ∃ entry, (getCurrentOps store did).getLast? = some entry ∧
      entry.operation = last := by
    have hlast := congrArg List.getLast? hlog
    rw [List.getLast?_map, List.getLast?_concat] at hlast
    exact Option.map_eq_some_iff.1 hlast
  rw [handleResolveDid, hentry] at h
  dsimp only at h
  split_ifs at h with htomb
  rw [resolveDidDocument, hentry] at h
  dsimp only at h
  rw [if_neg htomb, hfold] at h
  refine ⟨hop ▸ htomb, ?_⟩
  rcases foldlM_accumulate (earlier ++ [last]) nothing with ⟨-, names, hacc⟩ | ⟨-, hacc⟩
  · refine ⟨names, hacc, ?_⟩
    rw [hacc] at h
    simp only [nothing, Option.bind_eq_bind, Option.bind_some] at h
    generalize (objectEntries ((earlier ++ [last]).foldl
      (layered "verificationMethods" legacyMethods) [])).mapM (methodOf did) = vm at h ⊢
    generalize (objectEntries ((earlier ++ [last]).foldl
      (layered "services" legacyServices) [])).mapM serviceOf = svc at h ⊢
    cases vm with
    | none => cases h
    | some vm =>
      cases svc with
      | none => cases h
      | some svc =>
        obtain rfl := Resolution.document.inj h
        exact ⟨rfl, rfl, rfl⟩
  · rw [hacc] at h
    cases h

/-- The entry of a verification method tells its id. -/
theorem fst_of_methodOf (did : String) (e e' : String × Json) (vm : VerificationMethod)
    (h : methodOf did e = some vm) (h' : methodOf did e' = some vm) : e.1 = e'.1 := by
  have hid : ∀ e : String × Json, methodOf did e = some vm → vm.id = "#" ++ e.1 := by
    rintro ⟨id, v⟩ h
    cases v with
    | string key =>
      rw [← Option.some.inj h]
    | _ => cases h
  exact String.append_right_inj _ |>.1 ((hid e h).symm.trans (hid e' h'))

/-- The entry of a service tells its id. -/
theorem fst_of_serviceOf (e e' : String × Json) (svc : Service) (h : serviceOf e = some svc)
    (h' : serviceOf e' = some svc) : e.1 = e'.1 := by
  have hid : ∀ e : String × Json, serviceOf e = some svc → svc.id = "#" ++ e.1 := by
    rintro ⟨id, v⟩ h
    cases v with
    | null => cases h
    | _ => rw [← Option.some.inj h]
  exact String.append_right_inj _ |>.1 ((hid e h).symm.trans (hid e' h'))

/-- A document of operations that passed the validator. -/
theorem entriesOf_iff_supersedes (hvalid : Validated deps store)
    (h : handleResolveDid store did = .document doc)
    (hlog : (getCurrentOps store did).map LogEntry.operation = earlier ++ [last]) :
    EntriesOf did last doc ↔ Supersedes did earlier last := by
  obtain ⟨htomb, names, hacc, hnames, hvm, hsvc⟩ := of_document h hlog
  have htype : opType last = some "plc_operation" ∨ opType last = some "create" := by
    have hmem : last ∈ (getCurrentOps store did).map LogEntry.operation := by
      rw [hlog]
      exact List.mem_append_right _ List.mem_cons_self
    obtain ⟨entry, hentry, rfl⟩ := List.mem_map.1 hmem
    rcases opType_cases (hvalid did entry (List.mem_filter.1 hentry).1) with hcreate | hchained
    · exact .inr hcreate
    · exact .inl ((of_decide_eq_true hchained).resolve_right htomb)
  obtain ⟨hmethods, hmethod⟩ := mem_entries_iff (fun op => nodup_legacyMethods op) hvm
  obtain ⟨hservices, hservice⟩ := mem_entries_iff (fun op => nodup_legacyServices op) hsvc
  have hvm_iff := shows_iff_restated htype (fst_of_methodOf did) hmethod
  have hsvc_iff := shows_iff_restated htype fst_of_serviceOf hservice
  have hnames_iff : (∀ name, name ∈ doc.alsoKnownAs ↔ name ∈ namesOf last) ↔
      ∀ op ∈ earlier, ∀ name ∈ namesOf op, name ∈ namesOf last := by
    simp only [hnames, mem_alsoKnownAs_iff hacc, nothing, List.not_mem_nil, false_or,
      List.mem_append, List.mem_singleton, or_and_right, exists_or, exists_eq_left]
    refine ⟨fun h op hop name hname => (h name).1 (.inl ⟨op, hop, hname⟩), fun h name => ?_⟩
    refine ⟨?_, .inr⟩
    rintro (⟨op, hop, hname⟩ | hname)
    · exact h op hop name hname
    · exact hname
  constructor
  · intro h
    exact ⟨hvm_iff.1 fun b => (hmethods b).symm.trans (h.verificationMethod b),
      hnames_iff.1 h.alsoKnownAs, hsvc_iff.1 fun b => (hservices b).symm.trans (h.service b)⟩
  · intro h
    exact ⟨fun b => (hmethods b).trans (hvm_iff.2 h.verificationMethods b),
      hnames_iff.2 h.alsoKnownAs, fun b => (hservices b).trans (hsvc_iff.2 h.services b)⟩

/-- An operation that passes the checks, and is behind all current ones, comes behind them. -/
theorem getCurrentOps_handlePost {cid : String}
    (hstruct : validateOperationStructure deps op = none)
    (hcheck : checkOperation deps op (getAuditLog store did) (getCurrentOps store did) = none)
    (hcid : operationCid deps op = some cid)
    (hlast : recoveryIndex op (getCurrentOps store did) = none) :
    getCurrentOps (handlePost deps store ⟨did, some op⟩) did =
      getCurrentOps store did ++ [⟨did, op, cid, false⟩] := by
  have hstore : nullifyOverridden store did op (getCurrentOps store did) = store := by
    rw [nullifyOverridden, hlast]
  rw [handlePost, handleCreateOp_eq hstruct hcheck hcid, hstore, getCurrentOps,
    getAuditLog_insertOp, if_pos rfl, current, List.filter_append]
  rfl

/-- The handler answers with the document. -/
theorem exists_document {entry : LogEntry} (hlast : (getCurrentOps store did).getLast? = some entry)
    (htomb : opType entry.operation ≠ some "plc_tombstone")
    (hsome : (resolveDidDocument did (getCurrentOps store did)).isSome) :
    ∃ doc, handleResolveDid store did = .document doc := by
  obtain ⟨doc, hdoc⟩ := Option.isSome_iff_exists.1 hsome
  rw [handleResolveDid, hlast]
  dsimp only
  rw [if_neg htomb, hdoc]
  cases doc with
  | some doc => exact ⟨doc, rfl⟩
  | none =>
    rw [resolveDidDocument, hlast] at hdoc
    dsimp only at hdoc
    rw [if_neg htomb] at hdoc
    obtain ⟨_, -, hdoc⟩ := Option.bind_eq_some_iff.1 hdoc
    obtain ⟨_, -, hdoc⟩ := Option.bind_eq_some_iff.1 hdoc
    obtain ⟨_, -, hdoc⟩ := Option.bind_eq_some_iff.1 hdoc
    cases hdoc

/-- An operation with these verification methods. -/
def sampleState (prev : Json) (methods : List (String × Json)) : Json :=
  .object [("type", .string "plc_operation"), ("rotationKeys", .array [.string "A"]),
    ("verificationMethods", .object methods), ("alsoKnownAs", .array [.string "at://a.example"]),
    ("services", .object []), ("prev", prev), ("sig", .string "QQ")]

def sampleKeyed : Json := sampleState .null [("atproto", .string "did:key:zA")]

/-- An operation behind the first one. -/
def sampleNext (methods : List (String × Json)) : Json :=
  sampleState (.string ((operationCid sampleDeps sampleKeyed).getD "")) methods

/-- The store once the first operation is posted. -/
def sampleKeyedStore : PlcStore := handlePost sampleDeps [] ⟨"did:plc:a", some sampleKeyed⟩

def sampleStates (op : Json) : List Post :=
  [⟨"did:plc:a", some sampleKeyed⟩, ⟨"did:plc:a", some op⟩]

/-- The operation passes the checks behind the first one. -/
def follows (op : Json) : Bool :=
  (validateOperationStructure sampleDeps op).isNone &&
    (checkOperation sampleDeps op (getAuditLog sampleKeyedStore "did:plc:a")
      (getCurrentOps sampleKeyedStore "did:plc:a")).isNone &&
    (operationCid sampleDeps op).isSome &&
    (recoveryIndex op (getCurrentOps sampleKeyedStore "did:plc:a")).isNone

theorem getCurrentOps_sampleStates (h : follows op = true) : ∃ cid cid',
    getCurrentOps ((sampleStates op).foldl (handlePost sampleDeps) []) "did:plc:a" =
      [⟨"did:plc:a", sampleKeyed, cid, false⟩, ⟨"did:plc:a", op, cid', false⟩] := by
  simp only [follows, Bool.and_eq_true, Option.isNone_iff_eq_none] at h
  obtain ⟨⟨⟨hstruct, hcheck⟩, hcid⟩, hlast⟩ := h
  obtain ⟨cid, hkeyed⟩ : ∃ cid, operationCid sampleDeps sampleKeyed = some cid :=
    Option.isSome_iff_exists.1 (by decide +kernel)
  obtain ⟨cid', hcid'⟩ := Option.isSome_iff_exists.1 hcid
  have hfirst : getCurrentOps sampleKeyedStore "did:plc:a" =
      getCurrentOps [] "did:plc:a" ++ [⟨"did:plc:a", sampleKeyed, cid, false⟩] :=
    getCurrentOps_handlePost (by decide +kernel) (Option.isNone_iff_eq_none.1 (by decide +kernel))
      hkeyed (by decide +kernel)
  refine ⟨cid, cid', (getCurrentOps_handlePost hstruct hcheck hcid' hlast).trans ?_⟩
  rw [hfirst]
  rfl

theorem sampleStates_document (h : follows op = true)
    (htomb : opType op ≠ some "plc_tombstone") (hbuild : Buildable [sampleKeyed, op]) :
    (getCurrentOps ((sampleStates op).foldl (handlePost sampleDeps) []) "did:plc:a").map
        LogEntry.operation = [sampleKeyed] ++ [op] ∧
      ∃ doc, handleResolveDid ((sampleStates op).foldl (handlePost sampleDeps) []) "did:plc:a" =
        .document doc := by
  obtain ⟨cid, cid', hlog⟩ := getCurrentOps_sampleStates h
  have hvalid := @validated_run sampleDeps [] (sampleStates op) fun _ _ hnil => by cases hnil
  have hlast : (getCurrentOps ((sampleStates op).foldl (handlePost sampleDeps) [])
      "did:plc:a").getLast? = some ⟨"did:plc:a", op, cid', false⟩ := by
    rw [hlog]
    rfl
  refine ⟨by rw [hlog]; rfl, exists_document hlast htomb ?_⟩
  refine (resolve_isSome hlast htomb fun entry hentry =>
    hvalid "did:plc:a" entry (List.mem_filter.1 hentry).1).2 ?_
  rw [hlog]
  exact hbuild

theorem field_sampleState (prev : Json) (methods : List (String × Json)) :
    opType (sampleState prev methods) = some "plc_operation" ∧
      field (sampleState prev methods) "verificationMethods" = some (.object methods) ∧
      field (sampleState prev methods) "services" = some (.object []) ∧
      field (sampleState prev methods) "alsoKnownAs" =
        some (.array [.string "at://a.example"]) := by
  exact ⟨rfl, rfl, rfl, rfl⟩

theorem given_sampleState (id : String) (prev : Json) (methods : List (String × Json)) :
    given "verificationMethods" id (sampleState prev methods) = methods.reverse.lookup id ∧
      given "services" id (sampleState prev methods) = none := by
  obtain ⟨htype, hmethods, hservices, -⟩ := field_sampleState prev methods
  rw [given, given, if_pos htype, if_pos htype, hmethods, hservices]
  exact ⟨rfl, rfl⟩

theorem buildable_sampleNext (methods : List (String × Json))
    (h : ∀ e ∈ methods, isString (some e.2)) : Buildable [sampleKeyed, sampleNext methods] where
  alsoKnownAs op hop _ := by
    rcases List.mem_pair.1 hop with rfl | rfl
    · rw [sampleKeyed, (field_sampleState _ _).2.2.2]
      rfl
    · rw [sampleNext, (field_sampleState _ _).2.2.2]
      rfl
  verificationMethods id v hv := by
    simp only [lastGiven, Option.none_or, sampleKeyed, sampleNext, given_sampleState,
      Option.or_eq_some_iff] at hv
    rcases hv with hv | ⟨-, hv⟩
    · exact h _ (List.mem_reverse.1 (mem_of_lookup hv))
    · have hmem := mem_of_lookup hv
      simp only [List.reverse_singleton, List.mem_singleton] at hmem
      rw [(Prod.mk.inj hmem).2]
      rfl
  services id v hv := by
    simp only [lastGiven, Option.none_or, sampleKeyed, sampleNext, given_sampleState,
      reduceCtorEq] at hv

end ComputeContract.Plc
