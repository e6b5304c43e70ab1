import Hyperion.Recovery.Service

/-!
# Why a rollback happened

`restore_to_with_cause` restores as `restore_to` does and then, if the service has a memory, remembers the
cause there as a procedural memory; whether that succeeds is not looked at. `rollback_causes` reads the
causes of a subject back, the oldest first. The memory is the graph of the memory engine.
-/

namespace Hyperion.Recovery
open Lib Capability Storage Hyperion.Graph Memory Memory.Values

structure RollbackCause (V : Type) where
  reason : String
  detail : V

structure RecordedRollback (V : Type) where
  recoveryPointId : RecoveryPointId
  subject : String
  cause : RollbackCause V
  createdAt : Nat

def rollbackCauseKind : String := "recovery_rollback"

section
variable {F V : Type} [Values V]

def causeContent (point : RecoveryPointId) (subject : String) (cause : RollbackCause V) (now : Nat) : V :=
  object [("kind", str rollbackCauseKind), ("recovery_point_id", u64 point), ("subject", str subject),
    ("reason", str cause.reason), ("detail", cause.detail), ("created_at", u64 now)]

def isCauseOf (subject : String) (content : V) : Bool :=
  (get content "kind").bind asStr == some rollbackCauseKind && (get content "subject").bind asStr == some subject

def toRollback (subject : String) (content : V) : Option (RecordedRollback V) := do
  let point ← (get content "recovery_point_id").bind asU64
  let reason ← (get content "reason").bind asStr
  let detail := (get content "detail").getD null
  let createdAt ← (get content "created_at").bind asU64
  pure ⟨point, subject, ⟨reason, detail⟩, createdAt⟩

variable [F32 F] [RecordValues F V]

/-- What `restore_to_with_cause` does once the restore has succeeded. -/
def rememberCause {C : Codec V} (S : Serde F V) (memory : Option (KnowledgeGraph F V)) (call : Call C) (ts : Nat)
    (point : RecoveryPointId) (subject : String) (cause : RollbackCause V) (now : Nat) :
    Option (KnowledgeGraph F V) :=
  memory.map fun g => (remember S g call ts .procedural (causeContent point subject cause now) none F32.one false []).2

def rollbackCauses (memory : Option (KnowledgeGraph F V)) (caller : Caller) (order : TableOrder F V)
    (subject : String) : Except RecoveryError (List (RecordedRollback V)) :=
  match memory with
  | none => .ok []
  | some g =>
    match query g caller order ⟨some .procedural, false, false, false, none⟩ with
    | .error err => .error (.memory err)
    | .ok records =>
      .ok (((records.filter fun r => isCauseOf subject r.content).filterMap fun r =>
        toRollback subject r.content).insertionSort fun a b => a.createdAt ≤ b.createdAt)

/-! ## What is read back -/

omit [F32 F] [RecordValues F V] in
theorem get_causeContent (point : RecoveryPointId) (subject : String) (cause : RollbackCause V) (now : Nat)
    (key : String) : get (causeContent point subject cause now) key =
      [("kind", str rollbackCauseKind), ("recovery_point_id", u64 point), ("subject", str subject),
        ("reason", str cause.reason), ("detail", cause.detail), ("created_at", u64 now)].lookup key :=
  get_object _ _ (by simp)

omit [F32 F] [RecordValues F V] in
theorem isCauseOf_causeContent {point : RecoveryPointId} {subject subject' : String} {cause : RollbackCause V}
    {now : Nat} : isCauseOf subject' (causeContent point subject cause now) = true ↔ subject = subject' := by
  have hkind : get (causeContent point subject cause now) "kind" = some (str rollbackCauseKind) :=
    get_causeContent ..
  have hsubject : get (causeContent point subject cause now) "subject" = some (str subject) := get_causeContent ..
  simp [isCauseOf, hkind, hsubject, asStr_str]

omit [F32 F] [RecordValues F V] in
theorem toRollback_causeContent (point : RecoveryPointId) (subject subject' : String) (cause : RollbackCause V)
    (now : Nat) : toRollback subject' (causeContent point subject cause now) = some ⟨point, subject', cause, now⟩ := by
  have hpoint : get (causeContent point subject cause now) "recovery_point_id" = some (u64 point) :=
    get_causeContent ..
  have hreason : get (causeContent point subject cause now) "reason" = some (str cause.reason) := get_causeContent ..
  have hdetail : get (causeContent point subject cause now) "detail" = some cause.detail := get_causeContent ..
  have hnow : get (causeContent point subject cause now) "created_at" = some (u64 now) := get_causeContent ..
  simp [toRollback, hpoint, hreason, hdetail, hnow, asStr_str, asU64_u64]

/-- The memory tells the boundary of this rollback of the subject. -/
def Told (g : KnowledgeGraph F V) (boundary : TrustBoundaryId) (subject : String) (r : RecordedRollback V) : Prop :=
  ∃ (id : NodeId) (n : NodeRecord F V) (m : MemoryRecord F V), g.index.nodes[id]? = some n ∧
    Recalled boundary .procedural n m ∧ isCauseOf subject m.content = true ∧ toRollback subject m.content = some r

theorem mem_rollbackCauses {g : KnowledgeGraph F V} {caller : Caller} {order : TableOrder F V} {subject : String}
    {causes : List (RecordedRollback V)} (h : rollbackCauses (some g) caller order subject = .ok causes)
    (r : RecordedRollback V) : r ∈ causes ↔ Told g caller.token.origin subject r := by
  simp only [rollbackCauses] at h
  split at h
  · cases h
  · next records hquery =>
    cases h
    simp only [List.mem_insertionSort, List.mem_filterMap, List.mem_filter, mem_query hquery]
    constructor
    · rintro ⟨m, ⟨⟨id, n, hnode, hrecalled⟩, hcause⟩, hr⟩
      exact ⟨id, n, m, hnode, hrecalled, hcause, hr⟩
    · rintro ⟨id, n, m, hnode, hrecalled, hcause, hr⟩
      exact ⟨m, ⟨⟨id, n, hnode, hrecalled⟩, hcause⟩, hr⟩

/-- A cause that is remembered is told from then on, and nothing else is. -/
theorem told_rememberCause {C : Codec V} {S : Serde F V} {g : KnowledgeGraph F V} {call : Call C} (h : Takes g call)
    (ts : Nat) (point : RecoveryPointId) (subject : String) (cause : RollbackCause V) (now : Nat) :
    ∃ g', rememberCause S (some g) call ts point subject cause now = some g' ∧ ∀ boundary subject' r,
      Told g' boundary subject' r ↔ Told g boundary subject' r ∨
        boundary = call.token.origin ∧ subject' = subject ∧ r = ⟨point, subject, cause, now⟩ := by
  refine ⟨_, rfl, fun boundary subject' r => ?_⟩
  have hnodes := remember_nodes (S := S) h ts .procedural (causeContent point subject cause now)
  simp only [Told, hnodes]
  constructor
  · rintro ⟨id, n, m, hnode, hrecalled, hcause, hr⟩
    rw [HashMap.get_insert] at hnode
    split at hnode
    · cases hnode
      cases hrecalled.record.symm.trans (recalled_nodeOf call ts .procedural _).record
      have hsubject := isCauseOf_causeContent.mp hcause
      rw [hsubject]
      exact .inr ⟨hrecalled.origin.symm, rfl, Option.some.inj (hr.symm.trans (toRollback_causeContent ..))⟩
    · exact .inl ⟨id, n, m, hnode, hrecalled, hcause, hr⟩
  · rintro (⟨id, n, m, hnode, hrecalled, hcause, hr⟩ | ⟨rfl, rfl, rfl⟩)
    · refine ⟨id, n, m, ?_, hrecalled, hcause, hr⟩
      rw [HashMap.get_insert, if_neg, hnode]
      rintro rfl
      cases h.fresh.symm.trans hnode
    · refine ⟨(g.storage.inner.allocate none).1, _, _, ?_, recalled_nodeOf call ts .procedural _,
        isCauseOf_causeContent.mpr rfl, toRollback_causeContent ..⟩
      rw [HashMap.get_insert, if_pos rfl]
      rfl

end

end Hyperion.Recovery
