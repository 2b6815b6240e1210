import Mathlib.Data.List.Infix
import Mathlib.Data.String.Basic
import ComputeContract.Relay.Relay
import ComputeContract.Util.UrlEncoded

/-!
# What gets through the relay

A request is framed by the relay and made a request again by the subscriber, whose
application answers; the response is framed by the subscriber and made a response again by
the relay. Texts that come from outside are strings; of those that `JSON.stringify` writes
the value is kept.

* `relay_transparent_iff`: the messages that come through as they were sent.
-/

namespace ComputeContract

open AssocList

/-! ## Messages -/

/-- The path of a URL. -/
structure Path where
  text : String
  rooted : text.toList.head? = some '/'

/-- `Headers`, as they are listed: by name; only `set-cookie` may be repeated. -/
structure Headers where
  entries : List (String × String)
  sorted : (keys entries).Pairwise (· ≤ ·)

structure HttpRequest (Body : Type) where
  method : String
  path : Path
  /-- The query, with its `?`. -/
  search : String
  headers : Headers
  body : Option Body

structure HttpResponse (Body : Type) where
  status : ℕ
  contentType : Option String
  body : Body

/-- A text that is sent. -/
inductive Text
  | raw (s : String)
  /-- What `JSON.stringify` makes of the value. -/
  | stringify (v : Json)

/-- The decoder drops a byte order mark in front. -/
def dropBom (s : String) : String :=
  match s.toList with
  | '\ufeff' :: cs => String.ofList cs
  | _ => s

/-- `json()` on a body; `none` throws. -/
def Text.json : Text → Option Json
  | .raw s => Json.parse (dropBom s)
  | .stringify v => some v.stringified

/-- The text of a JSON value. -/
structure JsonText where
  text : String
  value : Json
  read : (Text.raw text).json = some value

namespace Headers

/-- `new Headers(o)`, of an object with names in lower case. -/
def ofObject (o : List (String × String)) : Headers := ⟨sort o, pairwise_keys_sort o⟩

/-- The header is added where there is none of its name. -/
def withDefault (h : Headers) (name value : String) : Headers :=
  if name ∈ keys h.entries then h else ofObject (h.entries ++ [(name, value)])

end Headers

/-! ## Requests -/

structure RequestFrame where
  requestId : String
  method : String
  path : Path
  params : List (String × String)
  /-- The field is left out where it is `undefined`. -/
  body : Option Json
  headers : List (String × String)

def bodiless : List String := ["GET", "HEAD"]

/-- The frame of the universal relay. -/
def toFrame (requestId : String) (req : HttpRequest JsonText) : RequestFrame where
  requestId := requestId
  method := req.method
  path := req.path
  params := objectEntries (setAll (UrlEncoded.searchParams req.search) [])
  body := if req.method ∈ bodiless then none else some ((req.body.map JsonText.value).getD .null)
  headers := objectEntries (setAll req.headers.entries [])

/-- The frame as it is read from its text. -/
def RequestFrame.received (frame : RequestFrame) : RequestFrame :=
  { frame with body := frame.body.map Json.stringified }

/-- The path of `new URL(path, origin)`: what follows two slashes is a host. -/
def resolve (validHost : String → Bool) (path : Path) : Option Path :=
  match path.text.toList with
  | '/' :: '/' :: rest =>
    let rest := rest.dropWhile (· = '/')
    if validHost (String.ofList (rest.takeWhile (· ≠ '/'))) then
      some ⟨String.ofList ('/' :: (rest.dropWhile (· ≠ '/')).drop 1), by simp⟩
    else none
  | _ => some path

/-- The query after `searchParams.set` of the pairs. -/
def searchOf (params : List (String × String)) : String :=
  match setAll params [] with
  | [] => ""
  | pairs => "?" ++ UrlEncoded.serialize pairs

/-- The method of `new Request`; some are refused. -/
def normalizeMethod (method : String) : Option String :=
  if method.toUpper ∈ ["CONNECT", "TRACE", "TRACK"] then none
  else if method.toUpper ∈ ["DELETE", "GET", "HEAD", "OPTIONS", "POST", "PUT"] then some method.toUpper
  else some method

/-- `typeof v === "string" ? v : JSON.stringify(v)` -/
def Text.ofJson : Json → Text
  | .string s => .raw s
  | v => .stringify v

/-- The body that `handleRequest` sets. -/
def initBody (frame : RequestFrame) : Option Text :=
  if frame.method ∈ bodiless then none
  else match frame.body with
    | none | some .null => none
    | some v => some (Text.ofJson v)

/-- The headers of the request; a string has a type. -/
def initHeaders (frame : RequestFrame) : Headers :=
  let headers := Headers.ofObject frame.headers
  if (initBody frame).isSome then headers.withDefault "content-type" "text/plain;charset=UTF-8"
  else headers

/-- The request that `handleRequest` makes of a frame; `none` throws. -/
def toRequest (validHost : String → Bool) (frame : RequestFrame) : Option (HttpRequest Text) := do
  let path ← resolve validHost frame.path
  let method ← normalizeMethod frame.method
  if method ∈ bodiless ∧ (initBody frame).isSome then none
  else some {
    method := method
    path := path
    search := searchOf frame.params
    headers := initHeaders frame
    body := initBody frame }

/-- What the application gets of a request; `cors()` in front answers an `OPTIONS`. -/
def deliver (validHost : String → Bool) (requestId : String) (req : HttpRequest JsonText) :
    Option (HttpRequest Text) :=
  if req.method = "OPTIONS" then none else toRequest validHost (toFrame requestId req).received

/-! ## Responses -/

def isJsonType (contentType : String) : Bool :=
  "application/json".toList <:+: contentType.toList

/-- The result of `handleRequest`. -/
def toResult (res : HttpResponse String) : RelayResult :=
  let contentType := res.contentType.getD "application/json"
  { status := .number res.status
    body := if isJsonType contentType then (Text.raw res.body).json.getD .null
      else .string (dropBom res.body)
    contentType := some contentType }

def RelayResult.received (result : RelayResult) : RelayResult :=
  { result with status := result.status.stringified, body := result.body.stringified }

/-- The statuses that a `Response` with a body may have. -/
def statusOf : Json → Option ℕ
  | .number n =>
    if n.isInt ∧ 200 ≤ n ∧ n ≤ 599 ∧ n ∉ ([204, 205, 304] : List ℚ) then some n.num.toNat else none
  | _ => none

/-- The response of the relay; `none` throws. -/
def toResponse (result : RelayResult) : Option (HttpResponse Text) := do
  let status ← statusOf result.status
  some {
    status := status
    contentType := some (result.contentType.getD "application/json")
    body := Text.ofJson result.body }

/-- What the caller gets of a response. -/
def reply (res : HttpResponse String) : Option (HttpResponse Text) :=
  toResponse (toResult res).received

/-! ## Sameness -/

/-- The application gets the request as the caller sent it. -/
structure SameRequest (req : HttpRequest JsonText) (req' : HttpRequest Text) : Prop where
  method : req'.method = req.method
  path : req'.path = req.path
  params : UrlEncoded.searchParams req'.search = UrlEncoded.searchParams req.search
  headers : req'.headers = req.headers
  body : req'.body.map Text.json = req.body.map fun b => some b.value

inductive BodyValue
  | json (v : Json)
  | text (t : Text)

/-- A body of a JSON type is the value that is read from it. -/
def bodyValue (contentType : Option String) (t : Text) : BodyValue :=
  match t.json with
  | some v => if contentType.any isJsonType then .json v else .text t
  | none => .text t

/-- The caller gets the response as the application returned it. -/
structure SameResponse (res : HttpResponse String) (res' : HttpResponse Text) : Prop where
  status : res'.status = res.status
  contentType : res'.contentType = res.contentType
  body : bodyValue res'.contentType res'.body = bodyValue res.contentType (.raw res.body)

/-- The values that are read from what is written of them: neither strings nor with an
    infinite number. -/
structure Json.Writable (v : Json) : Prop where
  not_string : ∀ s, v ≠ .string s
  finite : v.stringified = v

/-- The requests that come through. -/
structure HttpRequest.Relayable (req : HttpRequest JsonText) : Prop where
  method : req.method ≠ "OPTIONS" ∧ normalizeMethod req.method = some req.method
  path : ¬ ['/', '/'] <+: req.path.text.toList
  params : (keys (UrlEncoded.searchParams req.search)).Nodup ∧
    objectEntries (UrlEncoded.searchParams req.search) = UrlEncoded.searchParams req.search
  headers : (keys req.headers.entries).Nodup
  body : ∀ b ∈ req.body, req.method ∉ bodiless ∧ b.value ≠ .null ∧ b.value.Writable ∧
    "content-type" ∈ keys req.headers.entries

/-- The responses that come through. -/
structure HttpResponse.Relayable (res : HttpResponse String) : Prop where
  status : 200 ≤ res.status ∧ res.status ≤ 599 ∧ res.status ∉ [204, 205, 304]
  body : ∃ contentType, res.contentType = some contentType ∧
    if isJsonType contentType then ∃ v ∈ (Text.raw res.body).json, v.Writable
    else dropBom res.body = res.body

/-! ## Requests that come through -/

variable {validHost : String → Bool} {requestId : String}

theorem resolve_eq_iff {path : Path} :
    resolve validHost path = some path ↔ ¬ ['/', '/'] <+: path.text.toList := by
  unfold resolve
  split
  · rename_i rest hpath
    refine iff_of_false (fun h => ?_) (not_not.2 ⟨rest, hpath.symm⟩)
    dsimp only at h
    split_ifs at h
    have htext := congrArg (fun path => path.text.toList.length) (Option.some.inj h)
    have hskip := (List.dropWhile_sublist (l := rest) fun c => decide (c = '/')).length_le
    have hhost := (List.dropWhile_sublist (l := rest.dropWhile fun c => decide (c = '/'))
      fun c => decide (c ≠ '/')).length_le
    simp only [String.toList_ofList, List.length_cons, List.length_drop, hpath] at htext
    omega
  · rename_i hpath
    refine iff_of_true rfl ?_
    rintro ⟨rest, hrest⟩
    exact hpath rest hrest.symm

theorem searchParams_searchOf (params : List (String × String)) :
    UrlEncoded.searchParams (searchOf params) = setAll params [] := by
  unfold searchOf
  split
  · rename_i h
    rw [h]
    decide +kernel
  · have hmark (s : String) : UrlEncoded.searchParams ("?" ++ s) = UrlEncoded.parse s := by
      rw [UrlEncoded.searchParams, String.toList_append]
      exact congrArg UrlEncoded.parse String.ofList_toList
    rw [hmark, UrlEncoded.parse_serialize]

theorem nodup_keys_objectEntries {V : Type} {o : List (String × V)} :
    (keys (objectEntries o)).Nodup ↔ (keys o).Nodup :=
  ((objectEntries_perm o).map Prod.fst).nodup_iff

/-- The pairs that an object keeps as they are. -/
theorem objectEntries_setAll {V : Type} {pairs : List (String × V)} :
    objectEntries (setAll pairs []) = pairs ↔
      (keys pairs).Nodup ∧ objectEntries pairs = pairs := by
  constructor
  · intro h
    have hnodup : (keys pairs).Nodup := by
      rw [← h, nodup_keys_objectEntries]
      exact nodup_keys_setAll pairs List.nodup_nil
    have hset : setAll pairs [] = pairs := foldl_set_nil hnodup
    rw [hset] at h
    exact ⟨hnodup, h⟩
  · rintro ⟨hnodup, h⟩
    have hset : setAll pairs [] = pairs := foldl_set_nil hnodup
    rw [hset, h]

theorem params_delivered (pairs : List (String × String)) :
    UrlEncoded.searchParams (searchOf (objectEntries (setAll pairs []))) =
      objectEntries (setAll pairs []) := by
  rw [searchParams_searchOf]
  exact foldl_set_nil (nodup_keys_objectEntries.2 (nodup_keys_setAll pairs List.nodup_nil))

theorem mem_keys_setAll {V : Type} {pairs : List (String × V)} {name : String} :
    name ∈ keys (setAll pairs []) ↔ name ∈ keys pairs := by
  rw [← lookup_isSome_iff, lookup_setAll, List.lookup_nil, Option.or_none, lookup_isSome_iff, keys,
    List.map_reverse, List.mem_reverse]
  rfl

theorem mem_keys_ofObject {o : List (String × String)} {name : String} :
    name ∈ keys (Headers.ofObject o).entries ↔ name ∈ keys o :=
  ((sort_perm o).map Prod.fst).mem_iff

/-- The headers as the subscriber rebuilds them. -/
theorem headers_delivered {h : Headers} :
    Headers.ofObject (objectEntries (setAll h.entries [])) = h ↔ (keys h.entries).Nodup := by
  constructor
  · intro heq
    have hperm : (sort (objectEntries (setAll h.entries []))).Perm (setAll h.entries []) :=
      (sort_perm _).trans (objectEntries_perm _)
    have hentries : sort (objectEntries (setAll h.entries [])) = h.entries :=
      congrArg Headers.entries heq
    rw [← hentries]
    exact (hperm.map Prod.fst).nodup_iff.2 (nodup_keys_setAll _ List.nodup_nil)
  · intro hnodup
    have hset : setAll h.entries [] = h.entries := foldl_set_nil hnodup
    have hperm : (sort (objectEntries h.entries)).Perm h.entries :=
      (sort_perm _).trans (objectEntries_perm _)
    have hsorted : Sorted h.entries :=
      h.sorted.imp₂ (fun _ _ hle hne => lt_of_le_of_ne hle hne) hnodup
    have hsorted' : Sorted (sort (objectEntries h.entries)) :=
      (pairwise_keys_sort _).imp₂ (fun _ _ hle hne => lt_of_le_of_ne hle hne)
        ((hperm.map Prod.fst).nodup_iff.2 hnodup)
    have hentries : sort (objectEntries h.entries) = h.entries := hsorted'.eq_of_perm hsorted hperm
    obtain ⟨entries, _⟩ := h
    rw [hset]
    exact Headers.mk.injEq .. ▸ hentries

/-- With a body, the headers keep their type only where they have one. -/
theorem withDefault_delivered {h : Headers} {name value : String} :
    (Headers.ofObject (objectEntries (setAll h.entries []))).withDefault name value = h ↔
      name ∈ keys h.entries ∧ (keys h.entries).Nodup := by
  have hmem : name ∈ keys (Headers.ofObject (objectEntries (setAll h.entries []))).entries ↔
      name ∈ keys h.entries := by
    rw [mem_keys_ofObject]
    exact ((objectEntries_perm _).map Prod.fst).mem_iff.trans mem_keys_setAll
  unfold Headers.withDefault
  split_ifs with hname
  · rw [headers_delivered]
    exact (and_iff_right (hmem.1 hname)).symm
  · refine iff_of_false (fun heq => hname (hmem.2 ?_)) fun h => hname (hmem.2 h.1)
    rw [← heq, mem_keys_ofObject, keys_append]
    exact List.mem_append_right _ (List.mem_singleton_self name)

theorem length_dropBom (s : String) : (dropBom s).length ≤ s.length := by
  unfold dropBom
  split
  · rename_i cs hs
    rw [String.length_ofList, ← String.length_toList, hs, List.length_cons]
    exact Nat.le_succ _
  · exact le_rfl

/-- A value is read from what is written of it, when it is no string. -/
theorem json_ofJson {v : Json} : (Text.ofJson v.stringified).json = some v ↔ v.Writable := by
  unfold Text.ofJson
  split
  · rename_i s hv
    obtain rfl := Json.stringified_eq_string hv
    refine iff_of_false (fun h => ?_) fun h => h.not_string s rfl
    have hlt := Json.length_lt_of_parse h
    have hle := length_dropBom s
    omega
  · rename_i hv
    rw [Text.json, Json.stringified_stringified, Option.some_inj]
    refine ⟨fun h => ⟨fun s hs => hv s ?_, h⟩, fun h => h.finite⟩
    rw [h, hs]

/-- The bodies that come through. -/
theorem body_delivered {req : HttpRequest JsonText} :
    (initBody (toFrame requestId req).received).map Text.json =
        req.body.map (fun b => some b.value) ↔
      ∀ b ∈ req.body, req.method ∉ bodiless ∧ b.value ≠ .null ∧ b.value.Writable := by
  unfold initBody RequestFrame.received toFrame
  dsimp only
  by_cases hmethod : req.method ∈ bodiless
  · rw [if_pos hmethod]
    cases req.body with
    | none => simp
    | some b => simp [hmethod]
  · rw [if_neg hmethod, if_neg hmethod]
    cases req.body with
    | none => simp [Json.stringified]
    | some b =>
      simp only [Option.map_some, Option.getD_some, Option.mem_some_iff, forall_eq']
      split
      · rename_i hnone
        cases hnone
      · rename_i hnull
        refine iff_of_false (by simp) ?_
        rintro ⟨_, hne, hwritable⟩
        rw [← hwritable.finite, Option.some.inj hnull] at hne
        exact hne rfl
      · rename_i v hne hv
        cases hv
        rw [Option.map_some, Option.some_inj, json_ofJson]
        refine ⟨fun h => ⟨hmethod, fun hnull => hne ?_, h⟩, fun h => h.2.2⟩
        rw [hnull]
        rfl

theorem isSome_body_of_delivered {req : HttpRequest JsonText}
    (h : (initBody (toFrame requestId req).received).map Text.json =
      req.body.map fun b => some b.value) :
    (initBody (toFrame requestId req).received).isSome = req.body.isSome := by
  rw [← Option.isSome_map (f := Text.json), h, Option.isSome_map]

theorem initHeaders_delivered {req : HttpRequest JsonText} :
    initHeaders (toFrame requestId req).received = req.headers ↔
      (keys req.headers.entries).Nodup ∧ ((initBody (toFrame requestId req).received).isSome →
        "content-type" ∈ keys req.headers.entries) := by
  unfold initHeaders
  dsimp only
  split_ifs with hbody
  · exact withDefault_delivered.trans ⟨fun h => ⟨h.2, fun _ => h.1⟩, fun h => ⟨h.2 hbody, h.1⟩⟩
  · exact headers_delivered.trans ⟨fun h => ⟨h, fun hbody' => absurd hbody' hbody⟩, fun h => h.1⟩

/-- A request comes through exactly when it is relayable. -/
theorem delivered_iff {req : HttpRequest JsonText} :
    (∃ req', deliver validHost requestId req = some req' ∧ SameRequest req req') ↔
      req.Relayable := by
  constructor
  · rintro ⟨req', hdeliver, hsame⟩
    unfold deliver toRequest at hdeliver
    split_ifs at hdeliver with hoptions
    obtain ⟨path, hpath, hdeliver⟩ := Option.bind_eq_some_iff.1 hdeliver
    obtain ⟨method, hmethod, hdeliver⟩ := Option.bind_eq_some_iff.1 hdeliver
    split_ifs at hdeliver with hbodiless
    cases hdeliver
    obtain ⟨rfl, rfl, hparams, hheaders, hbody⟩ := hsame
    obtain ⟨hnodup, htype⟩ := initHeaders_delivered.1 hheaders
    refine ⟨⟨hoptions, hmethod⟩, resolve_eq_iff.1 hpath, ?_, hnodup, fun b hb => ?_⟩
    · exact objectEntries_setAll.1 ((params_delivered _).symm.trans hparams)
    · obtain ⟨hmethod, hnull, hwritable⟩ := body_delivered.1 hbody b hb
      refine ⟨hmethod, hnull, hwritable, htype ?_⟩
      rw [isSome_body_of_delivered hbody, Option.mem_def.1 hb]
      rfl
  · intro h
    have hbody : (initBody (toFrame requestId req).received).map Text.json =
        req.body.map fun b => some b.value := by
      refine body_delivered.2 fun b hb => ?_
      obtain ⟨hmethod, hnull, hwritable, _⟩ := h.body b hb
      exact ⟨hmethod, hnull, hwritable⟩
    have hsome := isSome_body_of_delivered hbody
    refine ⟨⟨req.method, req.path, searchOf (toFrame requestId req).params, req.headers,
      initBody (toFrame requestId req).received⟩, ?_, rfl, rfl, ?_, rfl, hbody⟩
    · unfold deliver toRequest
      rw [if_neg h.method.1]
      refine Option.bind_eq_some_iff.2 ⟨req.path, resolve_eq_iff.2 h.path, ?_⟩
      refine Option.bind_eq_some_iff.2 ⟨req.method, h.method.2, ?_⟩
      have hheaders : initHeaders (toFrame requestId req).received = req.headers := by
        refine initHeaders_delivered.2 ⟨h.headers, fun hsent => ?_⟩
        rw [hsome] at hsent
        obtain ⟨b, hb⟩ := Option.isSome_iff_exists.1 hsent
        exact (h.body b hb).2.2.2
      rw [if_neg, hheaders]
      · rfl
      · rintro ⟨hmethod, hsent⟩
        rw [hsome] at hsent
        obtain ⟨b, hb⟩ := Option.isSome_iff_exists.1 hsent
        exact (h.body b hb).1 hmethod
    · exact (params_delivered _).trans (objectEntries_setAll.2 h.params)

/-! ## Responses that come through -/

theorem statusOf_eq_some {n m : ℕ} :
    statusOf (.number n) = some m ↔ m = n ∧ 200 ≤ n ∧ n ≤ 599 ∧ n ∉ [204, 205, 304] := by
  have hrange : ((n : ℚ).isInt ∧ (200 : ℚ) ≤ n ∧ (n : ℚ) ≤ 599 ∧
      (n : ℚ) ∉ ([204, 205, 304] : List ℚ)) ↔ 200 ≤ n ∧ n ≤ 599 ∧ n ∉ [204, 205, 304] := by
    have hint : (n : ℚ).isInt = true := rfl
    simp only [hint, true_and, List.mem_cons, List.not_mem_nil, or_false]
    norm_cast
  unfold statusOf
  dsimp only
  split_ifs with h
  · rw [hrange] at h
    rw [Option.some_inj]
    exact ⟨fun hm => ⟨hm.symm, h⟩, fun hm => hm.1.symm⟩
  · rw [hrange] at h
    exact iff_of_false (by simp) fun hm => h hm.2

theorem bodyValue_eq_json {contentType : String} (htype : isJsonType contentType = true) {t : Text}
    {v : Json} : bodyValue (some contentType) t = .json v ↔ t.json = some v := by
  unfold bodyValue
  rw [Option.any_some, htype]
  cases t.json with
  | none => simp
  | some w => simp

theorem bodyValue_of_text {contentType : String} (htype : isJsonType contentType = false) (t : Text) :
    bodyValue (some contentType) t = .text t := by
  unfold bodyValue
  rw [Option.any_some, htype]
  cases t.json <;> rfl

/-- What becomes of the body of a response with a type. -/
theorem body_replied {contentType body : String} :
    bodyValue (some contentType) (Text.ofJson (toResult ⟨0, some contentType, body⟩).body.stringified) =
        bodyValue (some contentType) (.raw body) ↔
      if isJsonType contentType then ∃ v ∈ (Text.raw body).json, v.Writable
      else dropBom body = body := by
  unfold toResult
  dsimp only [Option.getD_some]
  by_cases htype : isJsonType contentType = true
  · rw [if_pos htype, if_pos htype]
    cases hread : (Text.raw body).json with
    | none =>
      have hnull : bodyValue (some contentType)
          (Text.ofJson ((none : Option Json).getD .null).stringified) = .json .null :=
        (bodyValue_eq_json htype).2 rfl
      have htext : bodyValue (some contentType) (.raw body) = .text (.raw body) := by
        unfold bodyValue
        rw [hread]
      rw [hnull, htext]
      simp
    | some v =>
      rw [(bodyValue_eq_json htype).2 hread, bodyValue_eq_json htype, Option.getD_some, json_ofJson]
      simp
  · rw [if_neg htype, if_neg htype]
    have htype := Bool.eq_false_iff.2 htype
    rw [bodyValue_of_text htype, bodyValue_of_text htype]
    simp [Json.stringified, Text.ofJson]

/-- A response comes through exactly when it is relayable. -/
theorem replied_iff {res : HttpResponse String} :
    (∃ res', reply res = some res' ∧ SameResponse res res') ↔ res.Relayable := by
  obtain ⟨status, contentType, body⟩ := res
  constructor
  · rintro ⟨res', hreply, hsame⟩
    obtain ⟨status', hstatus, hreply⟩ := Option.bind_eq_some_iff.1 hreply
    cases hreply
    obtain ⟨_, htype, hbody⟩ := hsame
    cases contentType with
    | none => cases htype
    | some contentType =>
      exact ⟨(statusOf_eq_some.1 hstatus).2, contentType, rfl, body_replied.1 hbody⟩
  · rintro ⟨hstatus, contentType, rfl, hbody⟩
    refine ⟨⟨status, some contentType, _⟩, ?_, rfl, rfl, body_replied.2 hbody⟩
    exact Option.bind_eq_some_iff.2 ⟨status, statusOf_eq_some.2 ⟨rfl, hstatus⟩, rfl⟩

/-- A request and its response come through as they were sent exactly when both are
    relayable. -/
theorem relay_transparent_iff (validHost : String → Bool) (requestId : String)
    (req : HttpRequest JsonText) (res : HttpResponse String) :
    (∃ req', deliver validHost requestId req = some req' ∧ SameRequest req req') ∧
        (∃ res', reply res = some res' ∧ SameResponse res res') ↔
      req.Relayable ∧ res.Relayable :=
  and_congr delivered_iff replied_iff

/-- A query that names two collections. -/
def sampleRequest : HttpRequest JsonText where
  method := "GET"
  path := ⟨"/xrpc/com.atproto.sync.subscribe", by decide⟩
  search := "?collection=bid&collection=receipt"
  headers := ⟨[], List.Pairwise.nil⟩
  body := none

/-- The application gets only the second one. -/
theorem relay_not_transparent : ¬ ∀ (validHost : String → Bool) (requestId : String)
    (req : HttpRequest JsonText) (res : HttpResponse String),
    (∃ req', deliver validHost requestId req = some req' ∧ SameRequest req req') ∧
      (∃ res', reply res = some res' ∧ SameResponse res res') := by
  intro h
  have hrequest := (h (fun _ => true) "request" sampleRequest ⟨200, some "text/plain", "ok"⟩).1
  exact absurd (delivered_iff.1 hrequest).params.1 (by decide +kernel)

end ComputeContract
