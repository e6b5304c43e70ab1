import Hyperion.Capability.Monitor

/-!
# The resource scheduler

`hyperion-scheduler`: admission of tasks against one ledger per resource dimension, earliest deadline
first for `RealTimeUI` and by dominant resource share for the other classes. Amounts are `u32` with
saturating arithmetic. The model router and the offload trigger are other components; what they answer
when `schedule_epoch` asks is an argument of it, one `Surroundings` for each task that did not fit.
The load signal is not read by any of these functions and is left out.
-/

namespace Hyperion.Sched
open Lib Capability

/-! ## Amounts -/

def saturatingAdd (a b : UInt32) : UInt32 :=
  if a.toNat + b.toNat < 2 ^ 32 then a + b else UInt32.ofNat (2 ^ 32 - 1)

def saturatingSub (a b : UInt32) : UInt32 := if b ≤ a then a - b else 0

theorem toNat_saturatingAdd (a b : UInt32) :
    (saturatingAdd a b).toNat = min (a.toNat + b.toNat) (2 ^ 32 - 1) := by
  unfold saturatingAdd
  split
  · next h =>
    rw [UInt32.toNat_add, Nat.mod_eq_of_lt h]
    omega
  · next h =>
    have hmax : (UInt32.ofNat (2 ^ 32 - 1)).toNat = 2 ^ 32 - 1 := rfl
    rw [hmax]
    omega

theorem toNat_saturatingSub (a b : UInt32) : (saturatingSub a b).toNat = a.toNat - b.toNat := by
  unfold saturatingSub
  split
  · next h => exact UInt32.toNat_sub_of_le _ _ h
  · next h =>
    rw [UInt32.le_iff_toNat_le] at h
    have hzero : (0 : UInt32).toNat = 0 := rfl
    omega

inductive ResourceDimension
  | cpu
  | ram
  | gpu
  | vram
  | storageIops
  | networkBw
  | inferenceTokens
  | contextWindowSlots
  | battery
deriving DecidableEq, Repr

def ResourceDimension.all : List ResourceDimension :=
  [.cpu, .ram, .gpu, .vram, .storageIops, .networkBw, .inferenceTokens, .contextWindowSlots, .battery]

structure ResourceVector where
  cpuShares : UInt32 := 0
  ramMb : UInt32 := 0
  gpuShares : UInt32 := 0
  vramMb : UInt32 := 0
  storageIops : UInt32 := 0
  networkBwKbps : UInt32 := 0
  inferenceTokensPerSec : UInt32 := 0
  contextWindowSlots : UInt32 := 0
  batteryBudgetMw : UInt32 := 0
deriving DecidableEq, Repr

namespace ResourceVector

def get (v : ResourceVector) : ResourceDimension → UInt32
  | .cpu => v.cpuShares
  | .ram => v.ramMb
  | .gpu => v.gpuShares
  | .vram => v.vramMb
  | .storageIops => v.storageIops
  | .networkBw => v.networkBwKbps
  | .inferenceTokens => v.inferenceTokensPerSec
  | .contextWindowSlots => v.contextWindowSlots
  | .battery => v.batteryBudgetMw

def set (v : ResourceVector) (dim : ResourceDimension) (value : UInt32) : ResourceVector :=
  match dim with
  | .cpu => { v with cpuShares := value }
  | .ram => { v with ramMb := value }
  | .gpu => { v with gpuShares := value }
  | .vram => { v with vramMb := value }
  | .storageIops => { v with storageIops := value }
  | .networkBw => { v with networkBwKbps := value }
  | .inferenceTokens => { v with inferenceTokensPerSec := value }
  | .contextWindowSlots => { v with contextWindowSlots := value }
  | .battery => { v with batteryBudgetMw := value }

def iterDimensions (v : ResourceVector) : List (ResourceDimension × UInt32) :=
  ResourceDimension.all.map fun d => (d, v.get d)

variable (v other : ResourceVector)

def saturatingAddAssign : ResourceVector :=
  other.iterDimensions.foldl (fun v p => v.set p.1 (saturatingAdd (v.get p.1) p.2)) v

def saturatingSubAssign : ResourceVector :=
  other.iterDimensions.foldl (fun v p => v.set p.1 (saturatingSub (v.get p.1) p.2)) v

theorem mem_iterDimensions {v : ResourceVector} {d : ResourceDimension} {n : UInt32} :
    (d, n) ∈ v.iterDimensions ↔ n = v.get d := by
  have hall : d ∈ ResourceDimension.all := by cases d <;> decide
  simp only [iterDimensions, List.mem_map, Prod.mk.injEq]
  constructor
  · rintro ⟨d', -, rfl, rfl⟩
    rfl
  · rintro rfl
    exact ⟨d, hall, rfl, rfl⟩

@[simp] theorem get_saturatingAddAssign (d : ResourceDimension) :
    (v.saturatingAddAssign other).get d = saturatingAdd (v.get d) (other.get d) := by
  cases d <;> rfl

@[simp] theorem get_saturatingSubAssign (d : ResourceDimension) :
    (v.saturatingSubAssign other).get d = saturatingSub (v.get d) (other.get d) := by
  cases d <;> rfl

end ResourceVector

/-! ## Tasks and ledgers -/

inductive SchedClass
  | realTimeUI
  | interactiveAgent
  | backgroundAgent
  | batchDistributable
deriving DecidableEq, Repr

abbrev IntentId := Nat
abbrev AgentId := Nat
abbrev TaskId := Nat
abbrev Ticket := TaskId
abbrev ImplId := Nat

inductive OwnerId
  | agent (id : AgentId)
  | intent (id : IntentId)
deriving DecidableEq, Repr

/-- The operations on `f32` that the ranking calls. `minWeight` is `0.01`, `agingStep` is
`AGING_STEP`. -/
class F32 (F : Type) where
  ofU32 : UInt32 → F
  zero : F
  one : F
  minWeight : F
  agingStep : F
  add : F → F → F
  mul : F → F → F
  div : F → F → F
  max : F → F → F
  partialCmp : F → F → Option Ordering

structure TaskDescriptor (F V : Type) where
  id : TaskId
  ownerIntent : IntentId
  ownerAgent : Option AgentId
  class_ : SchedClass
  deadline : Option Instant
  priorityWeight : F
  request : ResourceVector
  capToken : CapabilityToken
  capabilityRef : Option String
  args : V

def ownerOf {F V : Type} (task : TaskDescriptor F V) : OwnerId :=
  match task.ownerAgent with
  | some agent => .agent agent
  | none => .intent task.ownerIntent

structure ResourceLedger where
  dimension : ResourceDimension
  capacity : UInt32
  reservedForRealtime : UInt32
  allocated : UInt32
  epoch : Nat
deriving DecidableEq, Repr

def ResourceLedger.new (dimension : ResourceDimension) (capacity reservedForRealtime : UInt32) :
    ResourceLedger where
  dimension := dimension
  capacity := capacity
  reservedForRealtime := min reservedForRealtime capacity
  allocated := 0
  epoch := 0

def ResourceLedger.headroom (l : ResourceLedger) (useReserved : Bool) : UInt32 :=
  if useReserved then l.capacity else saturatingSub l.capacity l.reservedForRealtime

structure OwnerAccount where
  currentlyHeld : ResourceVector := {}
deriving DecidableEq, Repr

structure Allocation where
  owner : OwnerId
  vector : ResourceVector
deriving DecidableEq, Repr

structure SchedulingRationale (V : Type) where
  ticket : Ticket
  admitted : Bool
  note : String
  offloadResult : Option V

inductive SchedError
  | unauthorized
  | noSuchTicket
deriving DecidableEq, Repr

/-- What the other components answer about one task: the costs that the model router's
`declared_costs` gives for a capability (`none`: no router is wired), and what `try_offload` of the
offload trigger gives (`none`: no trigger is wired). -/
structure Surroundings (F V : Type) where
  declaredCosts : Option (String → List (ImplId × ResourceVector))
  offloadTrigger : Option (TaskDescriptor F V → Option V)

structure Scheduler (F V : Type) where
  ledgers : ResourceDimension → Option ResourceLedger
  owners : OwnerId → Option OwnerAccount
  realtimeReady : List (TaskDescriptor F V)
  otherReady : List (TaskDescriptor F V)
  allocations : HashMap TaskId Allocation
  rationale : HashMap TaskId (SchedulingRationale V)

/-! ## Admission -/

/-- `fits`: every dimension that the vector wants something of has a ledger with room for it. -/
def fits (vector : ResourceVector) (ledgers : ResourceDimension → Option ResourceLedger)
    (useReserved : Bool) : Bool :=
  vector.iterDimensions.all fun (dim, want) =>
    want == 0 ||
      match ledgers dim with
      | none => false
      | some ledger => decide (saturatingAdd ledger.allocated want ≤ ledger.headroom useReserved)

def tryAdmit {F V : Type} (task : TaskDescriptor F V) (ledgers : ResourceDimension → Option ResourceLedger)
    (useReserved : Bool) : Option ResourceVector :=
  if fits task.request ledgers useReserved then some task.request else none

def totalFootprint (vector : ResourceVector) : Nat :=
  (vector.iterDimensions.map fun p => p.2.toNat).sum

/-- A change to the `allocated` of the dimension's ledger, where there is one. -/
def updateAllocated (f : UInt32 → UInt32) (ledgers : ResourceDimension → Option ResourceLedger)
    (dim : ResourceDimension) : ResourceDimension → Option ResourceLedger :=
  Function.update ledgers dim ((ledgers dim).map fun l => { l with allocated := f l.allocated })

namespace Scheduler

section
variable {F V : Type}

def empty : Scheduler F V := ⟨fun _ => none, fun _ => none, [], [], ∅, ∅⟩

variable (s : Scheduler F V)

def registerResourceProvider (ledger : ResourceLedger) : Scheduler F V :=
  { s with ledgers := Function.update s.ledgers ledger.dimension (some ledger) }

def submitTask (monitor : CapabilityMonitor) (now : Instant)
    (task : TaskDescriptor F V) : Except SchedError Ticket × Scheduler F V :=
  match monitor.checkRightsOkResult now task.capToken .exec with
  | .error _ => (.error .unauthorized, s)
  | .ok () =>
    match task.class_ with
    | .realTimeUI => (.ok task.id, { s with realtimeReady := s.realtimeReady ++ [task] })
    | _ => (.ok task.id, { s with otherReady := s.otherReady ++ [task] })

def release (alloc : Allocation) : Scheduler F V :=
  { s with
    ledgers := alloc.vector.iterDimensions.foldl
      (fun ledgers p => updateAllocated (saturatingSub · p.2) ledgers p.1) s.ledgers
    owners := Function.update s.owners alloc.owner ((s.owners alloc.owner).map fun acc =>
      { acc with currentlyHeld := acc.currentlyHeld.saturatingSubAssign alloc.vector }) }

def complete (ticket : Ticket) : Except SchedError Unit × Scheduler F V :=
  match s.allocations[ticket]? with
  | none => (.error .noSuchTicket, s)
  | some alloc => (.ok (), release { s with allocations := s.allocations.erase ticket } alloc)

/-- `remove_by_id`, with whether anything was removed. -/
def removeById (queue : List (TaskDescriptor F V)) (ticket : Ticket) : Bool × List (TaskDescriptor F V) :=
  let kept := queue.filter fun t => t.id ≠ ticket
  (kept.length != queue.length, kept)

def cancel (ticket : Ticket) : Except SchedError Unit × Scheduler F V :=
  match s.allocations[ticket]? with
  | some alloc => (.ok (), release { s with allocations := s.allocations.erase ticket } alloc)
  | none =>
    if (removeById s.realtimeReady ticket).1 then
      (.ok (), { s with realtimeReady := (removeById s.realtimeReady ticket).2 })
    else if (removeById s.otherReady ticket).1 then
      (.ok (), { s with otherReady := (removeById s.otherReady ticket).2 })
    else (.error .noSuchTicket, s)

def report (r : SchedulingRationale V) : SchedulingRationale V × Scheduler F V :=
  (r, { s with rationale := s.rationale.insert r.ticket r })

variable (around : Surroundings F V) (task : TaskDescriptor F V)

def admitTask (vector : ResourceVector) (note : String) : SchedulingRationale V × Scheduler F V :=
  let account := (s.owners (ownerOf task)).getD {}
  report
    { s with
      ledgers := vector.iterDimensions.foldl
        (fun ledgers p => updateAllocated (saturatingAdd · p.2) ledgers p.1) s.ledgers
      owners := Function.update s.owners (ownerOf task)
        (some { account with currentlyHeld := account.currentlyHeld.saturatingAddAssign vector })
      allocations := s.allocations.insert task.id ⟨ownerOf task, vector⟩ }
    { ticket := task.id, admitted := true, note := note, offloadResult := none }

def missRealtimeDeadline : SchedulingRationale V × Scheduler F V :=
  s.report
    { ticket := task.id, admitted := false
      note := "missed real-time deadline: reserved headroom insufficient", offloadResult := none }

/-- The cheapest declared implementation of the task's capability that fits. -/
def tryDegrade : Option (ImplId × ResourceVector) := do
  let declaredCosts ← around.declaredCosts
  let capabilityRef ← task.capabilityRef
  let candidates := (declaredCosts capabilityRef).insertionSort fun a b =>
    totalFootprint a.2 ≤ totalFootprint b.2
  candidates.find? fun c => fits c.2 s.ledgers false

def tryOffload : Option V := do
  if task.class_ ≠ .batchDistributable then none
  let _ ← task.capabilityRef
  let trigger ← around.offloadTrigger
  trigger task

def dispatchRealtime : SchedulingRationale V × Scheduler F V :=
  match tryAdmit task s.ledgers true with
  | some vector => s.admitTask task vector "admitted"
  | none => s.missRealtimeDeadline task

def dispatchRealtimes : List (TaskDescriptor F V) → Scheduler F V →
    List (SchedulingRationale V) × Scheduler F V
  | [], s => ([], s)
  | task :: rest, s =>
    let (r, s) := s.dispatchRealtime task
    let (rs, s) := dispatchRealtimes rest s
    (r :: rs, s)

/-- A hundred years, in nanoseconds. -/
def effectivelyNever : Duration := 100 * 365 * 24 * 3600 * 1000000000

def deadlineKey (now : Instant) (task : TaskDescriptor F V) : Instant :=
  task.deadline.getD (now + effectivelyNever)

/-- A comparison of `sort_by_key(deadline_key)`: each of the keys is computed with a reading of its own. -/
def dueBefore (clock : Nat → Instant) (a b : TaskDescriptor F V) : Bool :=
  deadlineKey (clock 0) a < deadlineKey (clock 1) b

/-- The task moves in front of those that it is due before, the last of them first. Also the number of
readings of the clock. -/
def insertTail (task : TaskDescriptor F V) : (Nat → Instant) → List (TaskDescriptor F V) →
    List (TaskDescriptor F V) × Nat
  | _, [] => ([task], 0)
  | clock, last :: rest =>
    if dueBefore clock task last then
      let (rest, readings) := insertTail task (fun k => clock (k + 2)) rest
      (last :: rest, readings + 2)
    else (task :: last :: rest, 2)

/-- `sort_by_key(deadline_key)`, with the tasks in `sorted` done, the last first. Between two readings of the
clock the key of a task without a deadline changes, so such tasks can come to stand anywhere. -/
def sortByDeadline : (Nat → Instant) → List (TaskDescriptor F V) → List (TaskDescriptor F V) →
    List (TaskDescriptor F V)
  | _, sorted, [] => sorted.reverse
  | clock, sorted, task :: tasks =>
    let (sorted, readings) := insertTail task clock sorted
    sortByDeadline (fun k => clock (k + readings)) sorted tasks

variable [F32 F]

def dominantShare : F :=
  let shares := task.request.iterDimensions.map fun (d, want) =>
    let alreadyHeld := ((s.owners (ownerOf task)).map fun a => a.currentlyHeld.get d).getD 0
    let capacity := max (((s.ledgers d).map fun l => l.capacity).getD 1) 1
    F32.div (F32.ofU32 (saturatingAdd alreadyHeld want)) (F32.ofU32 capacity)
  F32.mul (shares.foldl F32.max F32.zero)
    (F32.div F32.one (F32.max task.priorityWeight F32.minWeight))

/-- The order of the candidates; the shares are finite, so the comparison does not fail. -/
def ranksBefore (a b : TaskDescriptor F V) : Bool :=
  F32.partialCmp (s.dominantShare a) (s.dominantShare b) != some .gt

/-- What happens to a candidate that is not `RealTimeUI`. -/
def dispatchOther : SchedulingRationale V × Scheduler F V :=
  match tryAdmit task s.ledgers false with
  | some vector => s.admitTask task vector "admitted"
  | none =>
    match s.tryDegrade around task with
    | some (implId, vector) =>
      s.admitTask task vector ("did not fit at its own declared request; admitted at cheaper " ++
        "registered implementation " ++ toString implId ++ " instead")
    | none =>
      match tryOffload around task with
      | some result =>
        s.report
          { ticket := task.id, admitted := true
            note := "did not fit locally; completed via real federation offload to a peer device"
            offloadResult := some result }
      | none =>
        let aged := { task with priorityWeight := F32.add task.priorityWeight F32.agingStep }
        { s with otherReady := s.otherReady ++ [aged] }.report
          { ticket := task.id, admitted := false
            note := "did not fit this epoch; aged and requeued", offloadResult := none }

/-- The `while` over the candidates, one for each of the `n` left. -/
def dispatchOthers (around : Nat → Surroundings F V) : Nat → List (TaskDescriptor F V) →
    Scheduler F V → List (SchedulingRationale V) × Scheduler F V
  | 0, _, s => ([], s)
  | n + 1, candidates, s =>
    match candidates.insertionSort fun a b => s.ranksBefore a b = true with
    | [] => ([], s)
    | task :: rest =>
      let (r, s) := s.dispatchOther (around n) task
      let (rs, s) := dispatchOthers around n rest s
      (r :: rs, s)

def scheduleEpoch (clock : Nat → Instant) (around : Nat → Surroundings F V) :
    List (SchedulingRationale V) × Scheduler F V :=
  let realtime := sortByDeadline clock [] s.realtimeReady
  let (first, s) := dispatchRealtimes realtime { s with realtimeReady := [] }
  let candidates := s.otherReady
  let (second, s) := dispatchOthers around candidates.length candidates { s with otherReady := [] }
  (first ++ second, s)

end

end Scheduler

end Hyperion.Sched
