import ComputeContract.Util.Json

/-!
# The market graph

The viewer builds a graph of the records of the market as their creation is reported: a node for
every record, an edge for every strong reference, and what is not written anywhere but follows from
the records (`fixUps`): the provisioning and the event of a receipt, the run that made a request,
the edges between a grant, a machine and its key.

The graph is written to the output whenever a node is new (`emit`). Of the text only matters when it
cannot be written. The process goes on with the next frame when one throws.
-/

namespace ComputeContract.MarketGraph

/-! ## Records -/

/-- The collections that are watched, and the one of the nodes that stand for runs. -/
inductive Collection
  | rfp
  | bid
  | accept
  | receipt
  | event
  | offering
  | vm
  | rbac
  | sshPublicKey
  | x402
  | free
  | vmDelete
  | provisioning
  | gha
  deriving DecidableEq

def Collection.nsid : Collection → String
  | .rfp => "com.publicdomainrelay.temp.market.rfp"
  | .bid => "com.publicdomainrelay.temp.market.bid"
  | .accept => "com.publicdomainrelay.temp.market.accept"
  | .receipt => "com.publicdomainrelay.temp.market.receipt"
  | .event => "com.publicdomainrelay.temp.market.event"
  | .offering => "com.publicdomainrelay.temp.market.offering"
  | .vm => "com.publicdomainrelay.temp.compute.vm"
  | .rbac => "com.fedproxy.rbac"
  | .sshPublicKey => "com.fedproxy.sshPublicKey"
  | .x402 => "com.publicdomainrelay.temp.market.bids.x402"
  | .free => "com.publicdomainrelay.temp.market.bids.free"
  | .vmDelete => "com.publicdomainrelay.temp.compute.events.vm.delete"
  | .provisioning => "com.publicdomainrelay.temp.compute.events.provisioning"
  | .gha => "com.fedcicd.tangled.spindle.gha"

def WATCHED_NSIDS : List Collection :=
  [.rfp, .bid, .accept, .receipt, .event, .offering, .vm, .rbac, .sshPublicKey, .x402, .free,
    .vmDelete, .provisioning]

structure RecordNode where
  uri : String
  cid : String
  did : String
  collection : Collection
  rkey : String
  record : Json
  /-- The time that is named, in milliseconds. -/
  createdAt : ℤ

structure GraphEdge where
  fromUri : String
  toUri : String
  label : String
  deriving DecidableEq

/-- `v[name]` -/
def member (v : Json) (name : String) : Option Json :=
  match v with
  | .object fields => fields.lookup name
  | _ => none

/-- `Object.entries(v)`, if `v` is an object. -/
def entriesOf (v : Json) : List (String × Json) :=
  match v with
  | .object fields => objectEntries fields
  | .array items => items.zipIdx.map fun item => (toString item.2, item.1)
  | _ => []

/-- `v[name]`, if it is a text. -/
def text (v : Json) (name : String) : Option String :=
  match member v name with
  | some (.string s) => some s
  | _ => none

/-- `record[field].uri`, if it is a text. -/
def refUri (record : Json) (field : String) : Option String :=
  (member record field).bind fun ref => text ref "uri"

def atUri (did : String) (collection : Collection) (rkey : String) : String :=
  "at://" ++ did ++ "/" ++ collection.nsid ++ "/" ++ rkey

/-! ## Frames -/

/-- The time of `new Date(us / 1000)`, if there is such a date. -/
def dateOf (us : ℚ) : Option ℤ :=
  match Json.toDouble (us / 1000) with
  | .number ms => if |ms| ≤ 8640000000000000 then some (ms.num.tdiv ms.den) else none
  | _ => none

/-- The record whose creation a frame reports, if it does; `none` if its time is not a date. -/
def parseJetstreamFrame (now : ℤ) (frame : Json) : Option (Option RecordNode) :=
  match member frame "commit" with
  | none => some none
  | some commit =>
    if text commit "operation" ≠ some "create" then some none
    else
      match WATCHED_NSIDS.find? fun c => text commit "collection" = some c.nsid with
      | none => some none
      | some collection =>
        let did := (text frame "did").getD ""
        let rkey := (text commit "rkey").getD ""
        let cid := (text commit "cid").getD ""
        let record := match member commit "record" with
          | none | some .null => .object []
          | some record => record
        let createdAt := match member frame "time_us" with
          | some (.number us) => dateOf us
          | some (.infinite _) => none
          | _ => dateOf (now * 1000)
        createdAt.map fun createdAt =>
          some ⟨atUri did collection rkey, cid, did, collection, rkey, record, createdAt⟩

/-! ## References -/

/-- The fields that refer to other records, and the labels of the edges. -/
def REF_FIELDS : Collection → List (String × String)
  | .rfp => [("payload", "payload")]
  | .bid => [("rfp", "rfp"), ("payload", "payload"), ("config", "config")]
  | .accept => [("rfp", "rfp"), ("bid", "bid"), ("payload", "payload")]
  | .receipt => [("rfp", "rfp"), ("bid", "bid"), ("accept", "accept"), ("payload", "payload")]
  | .event => [("receipt", "receipt"), ("payload", "payload")]
  | .provisioning => [("vm", "vm")]
  | _ => []

def extractEdges (node : RecordNode) : List GraphEdge :=
  (REF_FIELDS node.collection).filterMap fun e =>
    (refUri node.record e.1).map fun uri => ⟨node.uri, uri, node.rkey ++ ":" ++ e.2⟩

/-! ## Fix-ups -/

/-- `nodeMap.get(uri)` -/
def lookup (nodeMap : List RecordNode) (uri : String) : Option RecordNode :=
  nodeMap.find? (·.uri = uri)

/-- The machine that a receipt is about, if its request is there. -/
def resolveReceiptVm (node : RecordNode) (nodeMap : List RecordNode) : Option String :=
  (((refUri node.record "rfp").bind (lookup nodeMap)).bind fun rfpNode =>
    refUri rfpNode.record "payload").filter (· ≠ "")

def findProvisioningForVm (vmUri : String) (nodeMap : List RecordNode) : Option RecordNode :=
  nodeMap.find? fun n => n.collection = .provisioning ∧ refUri n.record "vm" = some vmUri

def findMarketEventForReceipt (receiptUri : String) (nodeMap : List RecordNode) :
    Option RecordNode :=
  nodeMap.find? fun n => n.collection = .event ∧ refUri n.record "receipt" = some receiptUri

structure FixUpResult where
  nodes : List RecordNode
  edges : List GraphEdge

/-- `edges.push(e)`, if `e` is not there. -/
def pushEdge (edges : List GraphEdge) (e : GraphEdge) : List GraphEdge :=
  if e ∈ edges then edges else edges ++ [e]

def strongRef (cid uri : String) : Json :=
  .object [("$type", .string "com.atproto.repo.strongRef"), ("cid", .string cid),
    ("uri", .string uri)]

/-- A node that no record is behind. -/
def synthetic (node : RecordNode) (collection : Collection) (rkey : String)
    (fields : List (String × Json)) : RecordNode where
  uri := atUri node.did collection rkey
  cid := "synthetic"
  did := node.did
  collection
  rkey
  record := .object (("$type", .string collection.nsid) :: fields)
  createdAt := node.createdAt

def provNode (node vmNode : RecordNode) : RecordNode :=
  synthetic node .provisioning (node.rkey ++ "_provisioning") [("vm", strongRef vmNode.cid vmNode.uri)]

def marketEvent (node : RecordNode) (provUri : String) : RecordNode :=
  synthetic node .event (node.rkey ++ "_event")
    [("receipt", strongRef node.cid node.uri), ("payload", strongRef "synthetic" provUri)]

def ghaNode (node : RecordNode) : RecordNode := synthetic node .gha node.rkey []

def receiptFixUps (node : RecordNode) (nodeMap : List RecordNode) : FixUpResult :=
  match (resolveReceiptVm node nodeMap).bind (lookup nodeMap) with
  | none => ⟨[], []⟩
  | some vmNode =>
    let existingProv := findProvisioningForVm vmNode.uri nodeMap
    let prov := existingProv.getD (provNode node vmNode)
    let nodes := if existingProv.isSome then [] else [prov]
    match findMarketEventForReceipt node.uri nodeMap with
    | none => ⟨nodes ++ [marketEvent node prov.uri], []⟩
    | some existingEvent =>
      ⟨nodes, [⟨existingEvent.uri, prov.uri, existingEvent.rkey ++ ":payload"⟩]⟩

/-- The part of `sub` behind `:role:` at its end. -/
def roleOf (sub : String) : Option String :=
  let name := sub.toList.reverse.takeWhile (· ≠ ':')
  let before := sub.toList.reverse.drop name.length
  if name ≠ [] ∧ ":role:".toList.reverse.isPrefixOf before then some (String.ofList name.reverse)
  else none

/-- The roles that a grant is for; `none` if one of its roles is `null`. -/
def rbacRoleSubs (rbacRecord : Json) : Option (List String) := do
  let roles := ((member rbacRecord "roles").map entriesOf).getD []
  let subs ← roles.mapM fun role =>
    match role.2 with
    | .null => none
    | roleVal => some (((member roleVal "definition").bind fun d => text d "sub").bind roleOf)
  return roles.map Prod.fst ++ subs.reduceOption

/-- The routes that a grant allows; `none` if one of its policies is `null`. -/
def rbacRoutes (rbacRecord : Json) : Option (List String) := do
  let policies := ((member rbacRecord "policies").map entriesOf).getD []
  let routes ← policies.mapM fun policy =>
    match policy.2 with
    | .null => none
    | policy => some ((((member policy "schemas").map entriesOf).getD []).map Prod.fst)
  return routes.flatten

/-- `roleSubs.has(n.record["role"])` -/
def hasRole (roleSubs : List String) (n : RecordNode) : Bool :=
  (text n.record "role").any (· ∈ roleSubs)

def isCreateRecord (route : String) : Bool := ".createRecord".toList.isSuffixOf route.toList

/-- The machine that a grant is for: the one that comes in, or the first one. -/
def vmFor (node : RecordNode) (nodeMap : List RecordNode) (roleSubs : List String) :
    Option RecordNode :=
  if node.collection = .vm then (if hasRole roleSubs node then some node else none)
  else nodeMap.find? fun n => n.collection = .vm ∧ hasRole roleSubs n

/-- The key of a machine, whose role is a text. -/
def matchingSsh (node : RecordNode) (nodeMap : List RecordNode) (vmNode : RecordNode) :
    Option RecordNode :=
  let sshNodes := if node.collection = .sshPublicKey then [node]
    else nodeMap.filter (·.collection = .sshPublicKey)
  sshNodes.find? fun n => text n.record "service" = text vmNode.record "role"

/-- The edge of a route that a grant allows. -/
def routeEdge (rbacNode vmNode : RecordNode) (ssh : Option RecordNode) (edges : List GraphEdge)
    (route : String) : List GraphEdge :=
  if isCreateRecord route then
    match ssh with
    | some ssh => pushEdge edges ⟨ssh.uri, rbacNode.uri, route⟩
    | none => edges
  else pushEdge edges ⟨vmNode.uri, rbacNode.uri, route⟩

/-- The edges of one grant, if there is a machine for it. -/
def grantEdges (node : RecordNode) (nodeMap : List RecordNode) (edges : List GraphEdge)
    (rbacNode : RecordNode) : Option (List GraphEdge) := do
  let roleSubs ← rbacRoleSubs rbacNode.record
  if roleSubs = [] then return edges
  match vmFor node nodeMap roleSubs with
  | none => return edges
  | some vmNode =>
    let ssh := matchingSsh node nodeMap vmNode
    let routes ← rbacRoutes rbacNode.record
    let edges := routes.foldl (routeEdge rbacNode vmNode ssh) edges
    match ssh with
    | some ssh => return pushEdge edges ⟨vmNode.uri, ssh.uri, "post public key"⟩
    | none => return edges

/-- The edges between grants, machines and keys, when one of them comes in. -/
def contractEdges (node : RecordNode) (nodeMap : List RecordNode) : Option (List GraphEdge) :=
  let rbacNodes := if node.collection = .rbac then [node] else nodeMap.filter (·.collection = .rbac)
  rbacNodes.foldlM (grantEdges node nodeMap) []

def rfpFixUps (node : RecordNode) (nodeMap : List RecordNode) : FixUpResult :=
  if (lookup nodeMap (ghaNode node).uri).isSome then ⟨[], []⟩
  else ⟨[ghaNode node], [⟨(ghaNode node).uri, node.uri, "created"⟩]⟩

def tunnelEdges (node : RecordNode) (nodeMap : List RecordNode) (edges : List GraphEdge) :
    List GraphEdge :=
  match nodeMap.find? (·.collection = .gha) with
  | some gha => pushEdge edges ⟨node.uri, gha.uri, "tunnel"⟩
  | none => edges

def eventEdges (node : RecordNode) (nodeMap : List RecordNode) : List GraphEdge :=
  if node.cid = "synthetic" then []
  else
    match (refUri node.record "receipt").bind (lookup nodeMap) with
    | none => []
    | some receiptNode =>
      match (resolveReceiptVm receiptNode nodeMap).bind fun vmUri =>
        findProvisioningForVm vmUri nodeMap with
      | none => []
      | some prov =>
        let syntheticEventUri := atUri receiptNode.did .event (receiptNode.rkey ++ "_event")
        if (lookup nodeMap syntheticEventUri).isSome then []
        else [⟨node.uri, prov.uri, node.rkey ++ ":payload"⟩]

/-- What follows from a record and those that are there; `none` if a `TypeError` is thrown. -/
def fixUps (node : RecordNode) (nodeMap : List RecordNode) : Option FixUpResult :=
  match node.collection with
  | .receipt => some (receiptFixUps node nodeMap)
  | .rbac | .vm => (contractEdges node nodeMap).map fun edges => ⟨[], edges⟩
  | .rfp => some (rfpFixUps node nodeMap)
  | .sshPublicKey =>
    (contractEdges node nodeMap).map fun edges => ⟨[], tunnelEdges node nodeMap edges⟩
  | .event => some ⟨[], eventEdges node nodeMap⟩
  | _ => some ⟨[], []⟩

/-! ## Output -/

mutual

/-- `String(v)` does not throw. -/
def stringable : Json → Bool
  | .object fields => fields.all fun e => e.1 ≠ "toString"
  | .array items => stringableItems items
  | _ => true

def stringableItems : List Json → Bool
  | [] => true
  | v :: vs => stringable v && stringableItems vs

end

/-- The key by which a node is drawn has a text. -/
def hasDedupKey (n : RecordNode) : Bool :=
  n.collection ≠ .rbac ||
    ((((member n.record "protects").map entriesOf).getD []).head?.all fun first =>
      (member first.2 "service").all stringable && (member first.2 "scope").all stringable)

/-- The graph can be written. -/
def emits (nodes : List RecordNode) : Bool := nodes.all hasDedupKey

/-! ## The graph -/

structure Graph where
  nodes : List RecordNode
  edges : List GraphEdge

/-- Insert one node, if it is new. -/
def ingest (g : Graph) (node : RecordNode) : Graph :=
  if (lookup g.nodes node.uri).isSome then g
  else ⟨g.nodes ++ [node], g.edges ++ extractEdges node⟩

/-- Insert the nodes and write the graph after each that is new; `false` if that throws. -/
def ingestAll (g : Graph) : List RecordNode → Graph × Bool
  | [] => (g, true)
  | node :: nodes =>
    if (lookup g.nodes node.uri).isSome then ingestAll g nodes
    else if emits (ingest g node).nodes then ingestAll (ingest g node) nodes
    else (ingest g node, false)

/-- What a record makes of the graph, until something throws. -/
def processRecord (g : Graph) (rec : RecordNode) : Graph :=
  match fixUps rec (ingest g rec).nodes with
  | none => ingest g rec
  | some result =>
    match ingestAll (ingest g rec) result.nodes with
    | (g, true) => { g with edges := result.edges.foldl pushEdge g.edges }
    | (g, false) => g

def processFrame (g : Graph) (now : ℤ) (frame : Json) : Graph :=
  match parseJetstreamFrame now frame with
  | some (some rec) => processRecord g rec
  | _ => g

/-- The frames that come in, and when. -/
def run (arrivals : List (ℤ × Json)) : Graph :=
  arrivals.foldl (fun g arrival => processFrame g arrival.1 arrival.2) ⟨[], []⟩

end ComputeContract.MarketGraph
