import Hyperion.Events.System
import Hyperion.Storage.JsonWal

/-!
# Events as JSON values

`serde_json` at `Event`, over the JSON values of `Hyperion.Lib.Json`. A `Value` keeps the fields of an
object by name, so they are listed in that order. Events read back as themselves.
-/

namespace Hyperion.Events
open Lib Storage

namespace JsonEvent

def toStr : Json → Option String
  | .str s => some s
  | _ => none

def field (name : String) : Json → Option Json
  | .obj fields => fields.lookup name
  | _ => none

def ofKind : TopicKind → Json
  | .objectChanged => .str "ObjectChanged"
  | .agentProgress => .str "AgentProgress"
  | .deviceLifecycle => .str "DeviceLifecycle"
  | .workspaceTrigger => .str "WorkspaceTrigger"
  | .custom => .str "Custom"

def toKind : Json → Option TopicKind
  | .str s =>
    if s = "ObjectChanged" then some .objectChanged
    else if s = "AgentProgress" then some .agentProgress
    else if s = "DeviceLifecycle" then some .deviceLifecycle
    else if s = "WorkspaceTrigger" then some .workspaceTrigger
    else if s = "Custom" then some .custom
    else none
  | _ => none

def ofSubject : SubjectId → Json
  | .object id => .obj [("Object", jsonOfNat id)]
  | .objectSubtree id => .obj [("ObjectSubtree", jsonOfNat id)]
  | .agent id => .obj [("Agent", jsonOfNat id)]
  | .intent id => .obj [("Intent", jsonOfNat id)]
  | .device id => .obj [("Device", jsonOfNat id)]

def toSubject : Json → Option SubjectId
  | .obj [(variant, j)] => do
    let id ← natOfJson j
    if variant = "Object" then some (.object id)
    else if variant = "ObjectSubtree" then some (.objectSubtree id)
    else if variant = "Agent" then some (.agent id)
    else if variant = "Intent" then some (.intent id)
    else if variant = "Device" then some (.device id)
    else none
  | _ => none

def ofTopic (t : Topic) : Json :=
  .obj [("kind", ofKind t.kind), ("schema_id", .str t.schemaId), ("subject", ofSubject t.subject)]

def toTopic (j : Json) : Option Topic := do
  let kind ← (field "kind" j).bind toKind
  let subject ← (field "subject" j).bind toSubject
  let schemaId ← (field "schema_id" j).bind toStr
  some ⟨kind, subject, schemaId⟩

def ofPayload : EventPayload Json → Json
  | .inline value => .obj [("Inline", value)]
  | .objectRef object version =>
    .obj [("ObjectRef", .obj [("object", jsonOfNat object), ("version", jsonOfNat version)])]

def toPayload : Json → Option (EventPayload Json)
  | .obj [(variant, j)] =>
    if variant = "Inline" then some (.inline j)
    else if variant = "ObjectRef" then do
      let object ← (field "object" j).bind natOfJson
      let version ← (field "version" j).bind natOfJson
      some (.objectRef object version)
    else none
  | _ => none

def toNats : Json → Option (List Nat)
  | .arr items => items.mapM natOfJson
  | _ => none

def ofEvent (e : Event Json) : Json :=
  .obj [("ancestors", .arr (e.ancestors.map jsonOfNat)), ("payload", ofPayload e.payload),
    ("seq", jsonOfNat e.seq), ("timestamp", jsonOfNat e.timestamp), ("topic", ofTopic e.topic)]

def toEvent (j : Json) : Option (Event Json) := do
  let topic ← (field "topic" j).bind toTopic
  let seq ← (field "seq" j).bind natOfJson
  let timestamp ← (field "timestamp" j).bind natOfJson
  let payload ← (field "payload" j).bind toPayload
  let ancestors ← (field "ancestors" j).bind toNats
  some ⟨topic, seq, timestamp, payload, ancestors⟩

theorem toKind_ofKind (k : TopicKind) : toKind (ofKind k) = some k := by
  cases k <;> rfl

theorem toSubject_ofSubject (s : SubjectId) : toSubject (ofSubject s) = some s := by
  cases s <;> simp [ofSubject, toSubject, natOfJson_jsonOfNat]

theorem toTopic_ofTopic (t : Topic) : toTopic (ofTopic t) = some t := by
  simp [toTopic, ofTopic, field, List.lookup, toKind_ofKind, toSubject_ofSubject, toStr]

theorem toPayload_ofPayload (p : EventPayload Json) : toPayload (ofPayload p) = some p := by
  cases p <;> simp [toPayload, ofPayload, field, List.lookup, natOfJson_jsonOfNat]

theorem toNats_map (ns : List Nat) : toNats (.arr (ns.map jsonOfNat)) = some ns := by
  unfold toNats
  induction ns with
  | nil => rfl
  | cons n ns ih => simp [List.mapM_cons, natOfJson_jsonOfNat, ih]

theorem toEvent_ofEvent (e : Event Json) : toEvent (ofEvent e) = some e := by
  simp [toEvent, ofEvent, field, List.lookup, natOfJson_jsonOfNat, toTopic_ofTopic, toPayload_ofPayload,
    toNats_map]

end JsonEvent

def jsonEvent : EventSerde Json where
  toValue e := some (JsonEvent.ofEvent e)
  fromValue := JsonEvent.toEvent

/-! ## Callers and topics -/

def member (boundary : Nat) : Caller :=
  let (token, monitor) := Capability.CapabilityMonitor.new.mintRoot 1 0 .all boundary none
  ⟨monitor, token, 0⟩

def agentTopic (id : Nat) : Topic := ⟨.agentProgress, .agent id, "agent.progress.v1"⟩

def publishAgent (id : Nat) : Op jsonSerde.plain :=
  .publish (member 7) 7 (agentTopic id) 0 (.objectRef id 1) []

end Hyperion.Events
