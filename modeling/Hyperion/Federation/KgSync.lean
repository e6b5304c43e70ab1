import Hyperion.Graph.Read

/-!
# Replication of Knowledge Graphs

Two devices send each other what `dump` shows of their graphs. `merge_snapshot` gives every remote node
a local copy the first time it sees its id, and remembers the pair in a `KgTranslation`; an edge is
linked between the copies of its ends.
-/

namespace Hyperion.Federation
open Lib Capability Storage Hyperion.Graph

/-- The ids of a peer's nodes and of their local copies. -/
structure KgTranslation where
  remoteToLocal : HashMap Nat NodeId

def KgTranslation.new : KgTranslation := ⟨∅⟩

structure KgMergeReport where
  nodesCreated : Nat := 0
  nodesUpdated : Nat := 0
  edgesApplied : Nat := 0
  edgesSkippedUnresolved : Nat := 0
deriving DecidableEq, Repr

section
variable {F V : Type} (S : Serde F V) (C : Codec V)

/-- The loop of `merge_snapshot` over the nodes; a write that fails is passed over. -/
def mergeNodes (call : Call C) (senderDeviceId : Nat) : (Nat → Readings C) →
    List (NodeId × NodeRecord F V) → HashMap Nat NodeId → KgMergeReport → KnowledgeGraph F V →
    HashMap Nat NodeId × KgMergeReport × KnowledgeGraph F V
  | _, [], map, report, g => (map, report, g)
  | readings, (remoteId, record) :: nodes, map, report, g =>
    match map[remoteId]? with
    | some localId =>
      match g.putNodeWithDeviceOrigin S C { call with toReadings := readings 0 } (some localId)
          record.objectType record.embedding record.metadata senderDeviceId with
      | (.ok _, g) =>
        mergeNodes call senderDeviceId (fun i => readings (i + 1)) nodes map
          { report with nodesUpdated := report.nodesUpdated + 1 } g
      | (.error _, g) => mergeNodes call senderDeviceId (fun i => readings (i + 1)) nodes map report g
    | none =>
      match g.putNodeWithDeviceOrigin S C { call with toReadings := readings 0 } none
          record.objectType record.embedding record.metadata senderDeviceId with
      | (.ok localId, g) =>
        mergeNodes call senderDeviceId (fun i => readings (i + 1)) nodes (map.insert remoteId localId)
          { report with nodesCreated := report.nodesCreated + 1 } g
      | (.error _, g) => mergeNodes call senderDeviceId (fun i => readings (i + 1)) nodes map report g

/-- The loop of `merge_snapshot` over the edges. -/
def mergeEdges (call : Call C) (map : HashMap Nat NodeId) : (Nat → Readings C) →
    List (EdgeId × EdgeRecord F) → KgMergeReport → KnowledgeGraph F V → KgMergeReport × KnowledgeGraph F V
  | _, [], report, g => (report, g)
  | readings, (_, edge) :: edges, report, g =>
    match map[edge.subject]?, map[edge.target]? with
    | some localSubject, some localTarget =>
      match g.link S C { call with toReadings := readings 0 }
          { subject := localSubject, predicate := edge.predicate, target := localTarget,
            weight := edge.weight, origin := edge.origin, confidence := edge.confidence,
            provenance := edge.provenance, observedVersion := none } with
      | (.ok _, g) =>
        mergeEdges call map (fun i => readings (i + 1)) edges
          { report with edgesApplied := report.edgesApplied + 1 } g
      | (.error _, g) => mergeEdges call map (fun i => readings (i + 1)) edges report g
    | _, _ =>
      mergeEdges call map readings edges
        { report with edgesSkippedUnresolved := report.edgesSkippedUnresolved + 1 } g

def mergeSnapshot (g : KnowledgeGraph F V) (call : Call C) (nodeReadings edgeReadings : Nat → Readings C)
    (translation : KgTranslation) (snapshot : GraphSnapshot F V) (senderDeviceId : Nat) :
    KgMergeReport × KgTranslation × KnowledgeGraph F V :=
  let (map, report, g) :=
    mergeNodes S C call senderDeviceId nodeReadings snapshot.nodes translation.remoteToLocal {} g
  let (report, g) := mergeEdges S C call map edgeReadings snapshot.edges report g
  (report, ⟨map⟩, g)

end

/-! ## Two devices -/

inductive Side
  | a
  | b
deriving DecidableEq, Repr

def Side.other : Side → Side
  | a => b
  | b => a

/-- A device has its graph and the table of the ids of its peer. -/
structure Device (F V : Type) where
  graph : KnowledgeGraph F V
  translation : KgTranslation

abbrev Peers (F V : Type) := Side → Device F V

/-- One device receives what the other dumps: the device, who dumps, and who merges. -/
structure Round {V : Type} (C : Codec V) where
  receiver : Side
  sender : Caller
  call : Call C
  nodeReadings : Nat → Readings C
  edgeReadings : Nat → Readings C
  senderDeviceId : Nat

section
variable {F V : Type} {C : Codec V} (S : Serde F V)

/-- The report of the merge, if there was one, and the devices after it. -/
def Round.exec (w : Peers F V) (r : Round C) : Option KgMergeReport × Peers F V :=
  match (w r.receiver.other).graph.dump r.sender with
  | .error _ => (none, w)
  | .ok snapshot =>
    let (report, translation, g) := mergeSnapshot S C (w r.receiver).graph r.call r.nodeReadings
      r.edgeReadings (w r.receiver).translation snapshot r.senderDeviceId
    (some report, Function.update w r.receiver ⟨g, translation⟩)

def runAll (w : Peers F V) (rounds : List (Round C)) : Peers F V :=
  rounds.foldl (fun w r => (r.exec S w).2) w

end

end Hyperion.Federation
