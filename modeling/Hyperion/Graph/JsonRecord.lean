import Hyperion.Storage.JsonWal
import Hyperion.Graph.Write

/-!
# Records as JSON values

`serde_json` at `Record`, over the JSON values of `Hyperion.Lib.Json` and floats with an integral
value. A `Value` keeps the fields of an object by name, so they are listed in that order; fields
marked `#[serde(default)]` may be missing. Records read back as themselves unless a node's metadata is
nested deeper than the reader's limit allows inside a record.
-/

namespace Hyperion.Graph
open Lib Capability Storage

/-- Floats with an integral value; operations round down. -/
instance : F32 Int where
  zero := 0
  one := 1
  mul a b := a * b
  div a b := a / b
  sum xs := xs.sum
  sqrt a := Int.sqrt a
  partialCmp a b := some (compare a b)
  recency deltaT := if deltaT = 0 then 1 else 0
  ofNat n := n

namespace JsonRecord

def ofFloat (x : Int) : Json := .float x

def toFloat : Json → Option Int
  | .float x => some x
  | _ => none

def ofOption {α : Type} (f : α → Json) : Option α → Json
  | none => .null
  | some a => f a

/-- An optional field; `null` and a missing field read as `None`. -/
def toOption {α : Type} (f : Json → Option α) : Json → Option (Option α)
  | .null => some none
  | j => (f j).map some

def toFloats : Json → Option (List Int)
  | .arr items => items.mapM toFloat
  | _ => none

def toBool : Json → Option Bool
  | .bool b => some b
  | _ => none

def toStr : Json → Option String
  | .str s => some s
  | _ => none

def ofNodeOrigin : NodeOrigin → Json
  | .userAuthored => .str "UserAuthored"
  | .agentGenerated => .str "AgentGenerated"
  | .ingestedExternal => .str "IngestedExternal"
  | .syncedRemote => .str "SyncedRemote"

def toNodeOrigin : Json → Option NodeOrigin
  | .str s =>
    if s = "UserAuthored" then some .userAuthored
    else if s = "AgentGenerated" then some .agentGenerated
    else if s = "IngestedExternal" then some .ingestedExternal
    else if s = "SyncedRemote" then some .syncedRemote
    else none
  | _ => none

def ofEdgeOrigin : EdgeOrigin → Json
  | .explicit => .str "Explicit"
  | .inferred => .str "Inferred"

def toEdgeOrigin : Json → Option EdgeOrigin
  | .str s => if s = "Explicit" then some .explicit else if s = "Inferred" then some .inferred else none
  | _ => none

section
variable {F : Type} (print : F → Json)

def ofFloats (xs : List F) : Json := .arr (xs.map print)

def nodeFields (n : NodeRecord F Json) : List (String × Json) :=
  [("corroboration_count", jsonOfNat n.corroborationCount), ("created_at", jsonOfNat n.createdAt),
    ("device_origin", jsonOfNat n.deviceOrigin), ("embedding", ofOption (ofFloats print) n.embedding),
    ("metadata", n.metadata), ("object_type", .str n.objectType), ("origin", ofNodeOrigin n.origin),
    ("owner", jsonOfNat n.owner), ("tenant_id", jsonOfNat n.tenantId), ("tombstone", .bool n.tombstone),
    ("updated_at", jsonOfNat n.updatedAt)]

def edgeFields (e : EdgeRecord F) : List (String × Json) :=
  [("confidence", ofOption print e.confidence), ("created_at", jsonOfNat e.createdAt),
    ("last_confirmed_at", jsonOfNat e.lastConfirmedAt), ("origin", ofEdgeOrigin e.origin),
    ("owner", jsonOfNat e.owner), ("predicate", .str e.predicate), ("provenance", .str e.provenance),
    ("subject", jsonOfNat e.subject), ("target", jsonOfNat e.target), ("tombstone", .bool e.tombstone),
    ("version", jsonOfNat e.version), ("weight", print e.weight)]

def toValue : Record F Json → Json
  | .node n => .obj [("Node", .obj (nodeFields print n))]
  | .edge e => .obj [("Edge", .obj (edgeFields print e))]

end

variable (fields : List (String × Json))

def fieldOr {α : Type} (name : String) (read : Json → Option α) (default : α) : Option α :=
  match fields.lookup name with
  | none => some default
  | some j => read j

def nodeOfFields : Option (NodeRecord Int Json) := do
  let corroborationCount ← fieldOr fields "corroboration_count" natOfJson 0
  let createdAt ← (fields.lookup "created_at").bind natOfJson
  let deviceOrigin ← fieldOr fields "device_origin" natOfJson 0
  let embedding ← fieldOr fields "embedding" (toOption toFloats) none
  let metadata ← fields.lookup "metadata"
  let objectType ← (fields.lookup "object_type").bind toStr
  let origin ← fieldOr fields "origin" toNodeOrigin .default
  let owner ← (fields.lookup "owner").bind natOfJson
  let tenantId ← fieldOr fields "tenant_id" natOfJson 0
  let tombstone ← fieldOr fields "tombstone" toBool false
  let updatedAt ← (fields.lookup "updated_at").bind natOfJson
  some { objectType, embedding, metadata, owner, deviceOrigin, origin, corroborationCount, tenantId,
         createdAt, updatedAt, tombstone }

def edgeOfFields : Option (EdgeRecord Int) := do
  let confidence ← fieldOr fields "confidence" (toOption toFloat) none
  let createdAt ← (fields.lookup "created_at").bind natOfJson
  let lastConfirmedAt ← fieldOr fields "last_confirmed_at" natOfJson 0
  let origin ← (fields.lookup "origin").bind toEdgeOrigin
  let owner ← (fields.lookup "owner").bind natOfJson
  let predicate ← (fields.lookup "predicate").bind toStr
  let provenance ← (fields.lookup "provenance").bind toStr
  let subject ← (fields.lookup "subject").bind natOfJson
  let target ← (fields.lookup "target").bind natOfJson
  let tombstone ← (fields.lookup "tombstone").bind toBool
  let version ← (fields.lookup "version").bind natOfJson
  let weight ← (fields.lookup "weight").bind toFloat
  some { subject, predicate, target, weight, provenance, origin, confidence, owner, createdAt,
         lastConfirmedAt, tombstone, version }

def fromValue : Json → Option (Record Int Json)
  | .obj [(tag, .obj fields)] =>
    if tag = "Node" then (nodeOfFields fields).map .node
    else if tag = "Edge" then (edgeOfFields fields).map .edge
    else none
  | _ => none

theorem toOption_ofOption {α : Type} (read : Json → Option α) (print : α → Json)
    (h : ∀ a, read (print a) = some a) (hnull : ∀ a, print a ≠ .null) (x : Option α) :
    toOption read (ofOption print x) = some x := by
  cases x with
  | none => rfl
  | some a =>
    have hread : toOption read (print a) = (read (print a)).map some := by
      unfold toOption
      split
      · next heq => exact absurd heq (hnull a)
      · rfl
    rw [ofOption, hread, h]
    rfl

theorem toFloats_ofFloats (xs : List Int) : toFloats (ofFloats ofFloat xs) = some xs := by
  have h : (xs.map ofFloat).mapM toFloat = some xs := by
    induction xs with
    | nil => rfl
    | cons x xs ih => simp [List.mapM_cons, ih, toFloat, ofFloat]
  exact h

theorem toNodeOrigin_ofNodeOrigin (o : NodeOrigin) : toNodeOrigin (ofNodeOrigin o) = some o := by
  cases o <;> rfl

theorem toEdgeOrigin_ofEdgeOrigin (o : EdgeOrigin) : toEdgeOrigin (ofEdgeOrigin o) = some o := by
  cases o <;> rfl

theorem nodeOfFields_nodeFields (n : NodeRecord Int Json) : nodeOfFields (nodeFields ofFloat n) = some n := by
  have hembedding := toOption_ofOption _ _ toFloats_ofFloats (fun _ h => nomatch h) n.embedding
  simp [nodeOfFields, nodeFields, fieldOr, List.lookup, natOfJson_jsonOfNat, hembedding, toStr, toBool,
    toNodeOrigin_ofNodeOrigin]

theorem edgeOfFields_edgeFields (e : EdgeRecord Int) : edgeOfFields (edgeFields ofFloat e) = some e := by
  have hconfidence := toOption_ofOption toFloat ofFloat (fun _ => rfl) (fun _ h => nomatch h)
    e.confidence
  simp [edgeOfFields, edgeFields, fieldOr, List.lookup, natOfJson_jsonOfNat, hconfidence, toStr, toBool,
    toEdgeOrigin_ofEdgeOrigin, toFloat, ofFloat]

theorem fromValue_toValue (r : Record Int Json) : fromValue (toValue ofFloat r) = some r := by
  cases r with
  | node n => simp [fromValue, toValue, nodeOfFields_nodeFields]
  | edge e => simp [fromValue, toValue, edgeOfFields_edgeFields]

section
variable {F : Type} {print : F → Json} (hprint : ∀ x, (print x).depth = 0)
include hprint

theorem depth_ofFloats (xs : List F) : (ofFloats print xs).depth = 1 := by
  have h : Json.depthItems (xs.map print) = 0 := by
    induction xs with
    | nil => rfl
    | cons x xs ih => simp [Json.depthItems, ih, hprint]
  simp [ofFloats, Json.depth, h]

theorem depth_toValue_le (r : Record F Json) : (toValue print r).depth ≤
    (match r with | .node n => n.metadata.depth | .edge _ => 0) + 3 := by
  have hnat : ∀ n, (jsonOfNat n).depth = 0 := fun n => by simp [jsonOfNat, Json.depth]
  cases r with
  | node n =>
    have hembedding : (ofOption (ofFloats print) n.embedding).depth ≤ 1 := by
      cases n.embedding with
      | none => simp [ofOption, Json.depth]
      | some xs => rw [ofOption, depth_ofFloats hprint]
    have horigin : (ofNodeOrigin n.origin).depth = 0 := by
      cases n.origin <;> simp [ofNodeOrigin, Json.depth]
    simp only [toValue, nodeFields, Json.depth, Json.depthFields, Json.depthField, hnat, horigin]
    omega
  | edge e =>
    have hconfidence : (ofOption print e.confidence).depth = 0 := by
      cases e.confidence <;> simp [ofOption, hprint, Json.depth]
    have horigin : (ofEdgeOrigin e.origin).depth = 0 := by
      cases e.origin <;> simp [ofEdgeOrigin, Json.depth]
    simp [toValue, edgeFields, Json.depth, Json.depthFields, Json.depthField, hnat, horigin, hconfidence,
      hprint]

end

theorem depth_ofFloat (x : Int) : (ofFloat x).depth = 0 := by simp [ofFloat, Json.depth]

end JsonRecord

def jsonRecord : Serde Int Json := ⟨JsonRecord.toValue JsonRecord.ofFloat, JsonRecord.fromValue⟩

/-- Any float, and metadata shallow enough to stand in a record of the log. -/
def shallow : Inputs Int Json := ⟨fun _ => True, fun m => m.depth + 4 < Json.recursionLimit⟩

theorem jsonRecord_exact : jsonRecord.Exact jsonReread shallow where
  stable r hr := by
    have hdepth : (jsonRecord.toValue r).depth + 1 < Json.recursionLimit := by
      have hle := JsonRecord.depth_toValue_le JsonRecord.depth_ofFloat r
      cases r with
      | node n => exact lt_of_le_of_lt (Nat.add_le_add_right hle 1) hr.2
      | edge e => exact lt_of_le_of_lt (Nat.add_le_add_right hle 1) (show 4 < Json.recursionLimit by decide)
    exact if_pos hdepth
  reads r _ := JsonRecord.fromValue_toValue r

/-! ## Sample calls -/

/-- A call by one of two boundaries whose root tokens carry `rights`, at time zero and without I/O
failure. -/
def sampleCall (rights : RightsMask) (second : Bool) : Call jsonSerde.plain :=
  let (firstToken, monitor) := CapabilityMonitor.new.mintRoot 1 0 rights 7 none
  let (secondToken, monitor) := monitor.mintRoot 2 0 rights 8 none
  { requireAt := 0, gateAt := 0, storeAt := 0, createdAt := 0, updatedAt := 0, nonce := fun _ => (),
    io := .completed, monitor := monitor, token := if second then secondToken else firstToken }

def sampleNode (nodeId : Option NodeId) (tenantId : TenantId) : NodeArgs Int Json where
  nodeId := nodeId
  objectType := "note"
  embedding := none
  metadata := .null
  deviceOrigin := 0
  origin := .default
  tenantId := tenantId

def sampleLink (subject target : NodeId) : LinkArgs Int where
  subject := subject
  predicate := "about"
  target := target
  weight := 1
  origin := .explicit
  confidence := none
  provenance := "user"
  observedVersion := none

def plainWriter : Call jsonSerde.plain := sampleCall .write false

def otherWriter : Call jsonSerde.plain := sampleCall .write true

def singleNode : KnowledgeGraph Int Json :=
  (KnowledgeGraph.empty.putNodeWithProvenance jsonRecord _ plainWriter (sampleNode none 0)).2

def unlinkedPair : KnowledgeGraph Int Json :=
  (singleNode.putNodeWithProvenance jsonRecord _ plainWriter (sampleNode none 0)).2

def linkedPair : KnowledgeGraph Int Json :=
  (unlinkedPair.link jsonRecord _ plainWriter (sampleLink 0 1)).2

/-- An edge of the other writer between two nodes that are not recorded. -/
def danglingEdge : KnowledgeGraph Int Json :=
  (KnowledgeGraph.empty.link jsonRecord _ otherWriter (sampleLink 5 6)).2

/-- The edge, with a node of the plain writer under the edge's id. -/
def sharedId : KnowledgeGraph Int Json :=
  (danglingEdge.putNodeWithProvenance jsonRecord _ plainWriter (sampleNode (some 0) 0)).2

end Hyperion.Graph
