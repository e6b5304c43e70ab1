import Hyperion.Storage.Wal

/-!
# The records of the Knowledge Graph

`hyperion-knowledge-graph` keeps nodes and edges as objects of the storage engine: both draw their
ids from the one counter of the engine. Floating-point numbers are a type `F` with the operations the
graph calls (`F32`), metadata a type `V` of JSON values. `Serde` is what `serde_json` does with a
record; `Serde.Lawful` and `Serde.Exact` are what is assumed of it.

Timestamps and edge versions are unbounded; `corroboration_count` saturates as in the source.
-/

namespace Hyperion.Graph
open Capability Storage

abbrev NodeId := Storage.ObjectId
abbrev EdgeId := Storage.ObjectId
abbrev ObjectType := String

/-- `TenantId(0)` is the default: no tenant recorded. -/
abbrev TenantId := Nat

/-- The operations on `f32` that are called. `ofNat` is `as f32`; `recency` is `(-(delta_t as f64) / TAU).exp() as f32`
for `DEFAULT_INFERRED_EDGE_TAU_SECS`. -/
class F32 (F : Type) where
  zero : F
  one : F
  mul : F → F → F
  div : F → F → F
  sum : List F → F
  sqrt : F → F
  partialCmp : F → F → Option Ordering
  recency : Nat → F
  ofNat : Nat → F

inductive NodeOrigin
  | userAuthored
  | agentGenerated
  | ingestedExternal
  | syncedRemote
deriving DecidableEq, Repr

def NodeOrigin.default : NodeOrigin := .ingestedExternal

inductive EdgeOrigin
  | explicit
  | inferred
deriving DecidableEq, Repr

structure NodeRecord (F V : Type) where
  objectType : ObjectType
  embedding : Option (List F)
  metadata : V
  owner : TrustBoundaryId
  deviceOrigin : Nat
  origin : NodeOrigin
  corroborationCount : Nat
  tenantId : TenantId
  createdAt : Nat
  updatedAt : Nat
  tombstone : Bool
deriving DecidableEq, Repr

structure EdgeRecord (F : Type) where
  subject : NodeId
  predicate : String
  target : NodeId
  weight : F
  provenance : String
  origin : EdgeOrigin
  confidence : Option F
  owner : TrustBoundaryId
  createdAt : Nat
  lastConfirmedAt : Nat
  tombstone : Bool
  version : Nat
deriving DecidableEq, Repr

inductive Record (F V : Type)
  | node (n : NodeRecord F V)
  | edge (e : EdgeRecord F)
deriving DecidableEq, Repr

inductive GraphError
  | unauthorized
  | notFound
  | storage (err : StorageError)
  | malformed (message : String)
  | crossTenantGrantRequired (subject target : TenantId)
deriving DecidableEq, Repr

inductive LinkOutcome
  | created (id : EdgeId)
  | updated (id : EdgeId)
  | suppressedByTombstone (id : EdgeId)
deriving DecidableEq, Repr

/-! ## Triples -/

/-- The `(subject, predicate, target)` under which an edge is looked up. -/
structure Triple where
  subject : NodeId
  predicate : String
  target : NodeId
deriving DecidableEq, Repr

def Triple.cmp : Triple → Triple → Ordering :=
  compareLex (compareOn Triple.subject) (compareLex (compareOn Triple.predicate) (compareOn Triple.target))

instance : Ord Triple := ⟨Triple.cmp⟩

instance : Std.TransOrd Triple :=
  inferInstanceAs (Std.TransCmp (compareLex (compareOn Triple.subject)
    (compareLex (compareOn Triple.predicate) (compareOn Triple.target))))

instance : Std.LawfulEqOrd Triple where
  eq_of_compare {a b} h := by
    have hlex : Triple.cmp a b = .eq := h
    simp only [Triple.cmp, compareLex_eq_eq, compareOn, Std.LawfulEqOrd.compare_eq_iff_eq] at hlex
    obtain ⟨hs, hp, ht⟩ := hlex
    cases a
    cases b
    cases hs
    cases hp
    cases ht
    rfl

def EdgeRecord.triple {F : Type} (e : EdgeRecord F) : Triple := ⟨e.subject, e.predicate, e.target⟩

/-! ## Records as JSON -/

section
variable {F V : Type}

/-- `serde_json::to_value` and `serde_json::from_value` at `Record`. -/
structure Serde (F V : Type) where
  toValue : Record F V → V
  fromValue : V → Option (Record F V)

def Record.SameIdentity : Record F V → Record F V → Prop
  | .node n, .node n' => n'.owner = n.owner
  | .edge e, .edge e' => e'.triple = e.triple ∧ e'.owner = e.owner
  | _, _ => False

structure Inputs (F V : Type) where
  float : F → Prop
  metadata : V → Prop

def Record.Within (given : Inputs F V) : Record F V → Prop
  | .node n => (∀ xs ∈ n.embedding, ∀ x ∈ xs, given.float x) ∧ given.metadata n.metadata
  | .edge e => given.float e.weight ∧ ∀ c ∈ e.confidence, given.float c

/-- What `serde_json` does with records over such inputs: their JSON text reads back as the same JSON
value, and that value, if it reads back as a record at all (a float that is not finite is written as
`null`), reads back as one of the same kind, owner and triple. -/
structure Serde.Lawful (S : Serde F V) (reread : V → Option V) (given : Inputs F V) : Prop where
  stable : ∀ r, r.Within given → Stable reread (S.toValue r)
  reads : ∀ r r', r.Within given → S.fromValue (S.toValue r) = some r' →
    r'.Within given ∧ r.SameIdentity r'

/-- Records over such inputs read back as themselves. -/
structure Serde.Exact (S : Serde F V) (reread : V → Option V) (given : Inputs F V) : Prop where
  stable : ∀ r, r.Within given → Stable reread (S.toValue r)
  reads : ∀ r, r.Within given → S.fromValue (S.toValue r) = some r

theorem Record.SameIdentity.refl (r : Record F V) : r.SameIdentity r := by
  cases r with
  | node n => exact Eq.refl n.owner
  | edge e => exact ⟨rfl, rfl⟩

theorem Serde.Exact.lawful {S : Serde F V} {reread : V → Option V} {given : Inputs F V}
    (h : S.Exact reread given) : S.Lawful reread given where
  stable := h.stable
  reads r r' hr hread := by
    cases (h.reads r hr).symm.trans hread
    exact ⟨hr, .refl r⟩

end

end Hyperion.Graph
