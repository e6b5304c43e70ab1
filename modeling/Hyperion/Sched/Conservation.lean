import Hyperion.Lib.Tally
import Hyperion.Sched.Core

/-!
# Conservation of the scheduler's accounts

The scheduler keeps three accounts of the same thing: the `allocated` of every ledger, the
`currently_held` of every owner and the map of live allocations. `register_resource_provider` replaces
a ledger by the one it is given, and an `allocated + want` that saturates at `u32::MAX` still fits a
ledger of that capacity; apart from these two, every operation keeps the three in step.
-/

namespace Hyperion.Sched
open Lib Capability List ResourceVector UInt32 Function Option HashMap Scheduler

section
variable {F V : Type} {useReserved : Bool} {rest : List (TaskDescriptor F V)}

/-- What the live allocations that meet `p` hold of the dimension. -/
def Scheduler.liveSum (s : Scheduler F V) (p : TaskId → Allocation → Bool) (d : ResourceDimension) : Nat :=
  tally (fun id a => if p id a then (a.vector.get d).toNat else 0) s.allocations

def anyTask (_ : TaskId) (_ : Allocation) : Bool := true

/-- The allocations of tasks that were not submitted as `RealTimeUI`. -/
def notRealtime (classOf : TaskId → Option SchedClass) (id : TaskId) (_ : Allocation) : Bool :=
  classOf id != some .realTimeUI

def ownedBy (owner : OwnerId) (_ : TaskId) (a : Allocation) : Bool := a.owner == owner

/-! ## Runs -/

/-- A scheduler, with the class under which each task id has been submitted. -/
structure History (F V : Type) where
  scheduler : Scheduler F V
  classOf : TaskId → Option SchedClass

inductive Op (F V : Type)
  | register (ledger : ResourceLedger)
  | submit (monitor : CapabilityMonitor) (now : Instant) (task : TaskDescriptor F V)
  | epoch (clock : Nat → Instant) (around : Nat → Surroundings F V)
  | complete (ticket : Ticket)
  | cancel (ticket : Ticket)

def Op.exec [F32 F] (h : History F V) : Op F V → History F V
  | .register ledger => { h with scheduler := h.scheduler.registerResourceProvider ledger }
  | .submit monitor now task =>
    ⟨(h.scheduler.submitTask monitor now task).2, Function.update h.classOf task.id (some task.class_)⟩
  | .epoch clock around => { h with scheduler := (h.scheduler.scheduleEpoch clock around).2 }
  | .complete ticket => { h with scheduler := (h.scheduler.complete ticket).2 }
  | .cancel ticket => { h with scheduler := (h.scheduler.cancel ticket).2 }

/-- A submitted task has an id of its own. -/
def Op.FreshId (h : History F V) : Op F V → Prop
  | .submit _ _ task => h.classOf task.id = none
  | _ => True

/-- A registered ledger carries on the account of its dimension: it starts with what the live
allocations hold, has room for it, and its capacity is below `u32::MAX`. -/
def Op.CarriesOn (h : History F V) : Op F V → Prop
  | .register ledger =>
    ledger.allocated.toNat = h.scheduler.liveSum anyTask ledger.dimension ∧
      ledger.allocated ≤ ledger.capacity ∧ ledger.capacity.toNat < 2 ^ 32 - 1 ∧
      h.scheduler.liveSum (notRealtime h.classOf) ledger.dimension ≤ (ledger.headroom false).toNat
  | _ => True

def History.empty : History F V := ⟨.empty, fun _ => none⟩

def Reached [F32 F] (ok : History F V → Op F V → Prop) : History F V → Prop :=
  Relation.ReflTransGen (fun h h' => ∃ op, ok h op ∧ op.exec h = h') .empty

/-- The three accounts agree, and no ledger is overdrawn. -/
structure Conserved (h : History F V) : Prop where
  allocated : ∀ d l, h.scheduler.ledgers d = some l → l.allocated.toNat = h.scheduler.liveSum anyTask d
  capacity : ∀ d l, h.scheduler.ledgers d = some l → l.allocated ≤ l.capacity
  reserve : ∀ d l, h.scheduler.ledgers d = some l →
    h.scheduler.liveSum (notRealtime h.classOf) d ≤ l.capacity.toNat - l.reservedForRealtime.toNat
  held : ∀ o acc d, h.scheduler.owners o = some acc →
    (acc.currentlyHeld.get d).toNat = h.scheduler.liveSum (ownedBy o) d

/-! ## The invariant -/

/-- The account of an owner; one that has none holds nothing. -/
def Scheduler.account (s : Scheduler F V) (owner : OwnerId) : OwnerAccount := (s.owners owner).getD {}

/-- The tasks in hand and those in the two queues. -/
def Scheduler.waiting (s : Scheduler F V) (pending : List (TaskDescriptor F V)) :
    List (TaskDescriptor F V) := pending ++ (s.realtimeReady ++ s.otherReady)

/-- Every ledger's `allocated` is what the live allocations hold and leaves them room, and nothing is
held of a dimension without a ledger. -/
structure Balanced (classOf : TaskId → Option SchedClass) (s : Scheduler F V) : Prop where
  ledger : ∀ d l, s.ledgers d = some l → l.allocated.toNat = s.liveSum anyTask d ∧
    l.allocated ≤ l.capacity ∧ l.capacity.toNat < 2 ^ 32 - 1 ∧
    s.liveSum (notRealtime classOf) d ≤ (l.headroom false).toNat
  unregistered : ∀ d, s.ledgers d = none → s.liveSum anyTask d = 0

/-- The three accounts are in step. -/
structure InStep (classOf : TaskId → Option SchedClass) (s : Scheduler F V) : Prop extends Balanced classOf s where
  held : ∀ o d, ((s.account o).currentlyHeld.get d).toNat = s.liveSum (ownedBy o) d

/-- The tasks are each in one place while those in `pending` are in hand; and if the ledgers that were
registered carried on the accounts, these are in step. -/
structure Books (carried : Prop) (classOf : TaskId → Option SchedClass) (pending : List (TaskDescriptor F V))
    (s : Scheduler F V) : Prop where
  accounts : carried → InStep classOf s
  ids : ((s.waiting pending).map TaskDescriptor.id).Nodup
  waiting : ∀ t ∈ s.waiting pending, s.allocations[t.id]? = none ∧ classOf t.id = some t.class_
  live : ∀ id a, s.allocations[id]? = some a → (classOf id).isSome
  realtime : ∀ t ∈ s.realtimeReady, t.class_ = .realTimeUI

theorem ResourceLedger.toNat_headroom_false (l : ResourceLedger) :
    (l.headroom false).toNat = l.capacity.toNat - l.reservedForRealtime.toNat :=
  toNat_saturatingSub _ _

theorem ResourceLedger.headroom_le (l : ResourceLedger) (useReserved : Bool) :
    (l.headroom useReserved).toNat ≤ l.capacity.toNat := by
  cases useReserved with
  | false => exact l.toNat_headroom_false.trans_le (Nat.sub_le _ _)
  | true => exact le_refl _

theorem InStep.conserved {h : History F V} (hb : InStep h.classOf h.scheduler) : Conserved h where
  allocated d l hl := (hb.ledger d l hl).1
  capacity d l hl := (hb.ledger d l hl).2.1
  reserve d l hl := by
    rw [← l.toNat_headroom_false]
    exact (hb.ledger d l hl).2.2.2
  held o acc d ho := by
    have hheld := hb.held o d
    rwa [account, ho] at hheld

theorem books_empty {carried : Prop} : Books carried (fun _ => none) [] (empty : Scheduler F V) where
  accounts _ := {
    ledger := nofun
    unregistered := fun _ _ => tally_empty _
    held := fun o d => by
      rw [liveSum, empty, tally_empty]
      cases d <;> rfl }
  ids := nodup_nil
  waiting t ht := nomatch ht
  live id a ha := by simp [empty] at ha
  realtime t ht := nomatch ht

/-! ## Ledgers and sums -/

theorem foldl_updateAllocated (f : UInt32 → UInt32 → UInt32) (vector : ResourceVector)
    (ledgers : ResourceDimension → Option ResourceLedger) (d : ResourceDimension) :
    vector.iterDimensions.foldl (fun ledgers p => updateAllocated (f · p.2) ledgers p.1) ledgers d =
      (ledgers d).map fun l => { l with allocated := f l.allocated (vector.get d) } := by
  cases d <;> rfl

variable {ledgers : ResourceDimension → Option ResourceLedger} {s' : Scheduler F V} {id : TaskId}
  {a : Allocation} {o : OwnerId}

theorem fits_iff {vector : ResourceVector} : fits vector ledgers useReserved = true ↔ ∀ d, vector.get d = 0 ∨
      ∃ l, ledgers d = some l ∧ saturatingAdd l.allocated (vector.get d) ≤ l.headroom useReserved := by
  rw [fits, List.all_eq_true]
  constructor
  · intro h d
    have hd := h (d, vector.get d) (mem_iterDimensions.mpr rfl)
    rcases hl : ledgers d with _ | l
    · simpa [hl] using hd
    · simpa [hl] using hd
  · rintro h ⟨d, n⟩ hmem
    obtain rfl := mem_iterDimensions.mp hmem
    rcases h d with hzero | ⟨l, hl, hle⟩
    · simp [hzero]
    · simp [hl, hle]

variable {s : Scheduler F V} {p q : TaskId → Allocation → Bool} {d : ResourceDimension}

theorem liveSum_le_all : s.liveSum p d ≤ s.liveSum anyTask d := by
  refine tally_le_tally fun id a _ => ?_
  cases hp : p id a <;> simp [anyTask]

theorem liveSum_insert (hnew : s.allocations[id]? = none) (h : s'.allocations = s.allocations.insert id a) :
    s'.liveSum p d = (if p id a then (a.vector.get d).toNat else 0) + s.liveSum p d := by
  rw [liveSum, h, tally_insert _ hnew, liveSum]

theorem liveSum_erase (hlive : s.allocations[id]? = some a) (h : s'.allocations = s.allocations.erase id) :
    s.liveSum p d = (if p id a then (a.vector.get d).toNat else 0) + s'.liveSum p d := by
  rw [liveSum, tally_erase _ hlive, liveSum, h]

/-! ## One step -/

variable {carried : Prop} {classOf : TaskId → Option SchedClass} {pending : List (TaskDescriptor F V)}

theorem Books.report (hb : Books carried classOf pending s) (r : SchedulingRationale V) :
    Books carried classOf pending (s.report r).2 where
  accounts hc := { hb.accounts hc with }
  ids := hb.ids
  waiting := hb.waiting
  live := hb.live
  realtime := hb.realtime

theorem Books.rearrange {realtime other pending' : List (TaskDescriptor F V)} (hb : Books carried classOf pending s)
    (hsub : ((pending' ++ (realtime ++ other)).map TaskDescriptor.id).Subperm
      ((s.waiting pending).map TaskDescriptor.id)) (hmem : ∀ t ∈ pending' ++ (realtime ++ other),
      ∃ t' ∈ s.waiting pending, t'.id = t.id ∧ t'.class_ = t.class_)
    (hrt : ∀ t ∈ realtime, t.class_ = .realTimeUI) :
    Books carried classOf pending' { s with realtimeReady := realtime, otherReady := other } where
  accounts hc := { hb.accounts hc with }
  ids := by
    obtain ⟨l, hperm, hl⟩ := hsub
    exact hperm.nodup_iff.mp (hl.nodup hb.ids)
  waiting t ht := by
    obtain ⟨t', ht', hid, hclass⟩ := hmem t ht
    rw [← hid, ← hclass]
    exact hb.waiting t' ht'
  live := hb.live
  realtime := hrt

/-! ## Admission and release -/

theorem toNat_get_default (d : ResourceDimension) : (({} : ResourceVector).get d).toNat = 0 := by
  cases d <;> rfl

theorem Balanced.liveSum_lt (hb : Balanced classOf s) (d : ResourceDimension) :
    s.liveSum anyTask d < 2 ^ 32 - 1 := by
  rcases hl : s.ledgers d with _ | l
  · rw [hb.unregistered d hl]
    decide
  · obtain ⟨hsum, hcap, hmax, -⟩ := hb.ledger d l hl
    rw [le_iff_toNat_le] at hcap
    omega

theorem Balanced.room (hb : Balanced classOf s) {vector : ResourceVector}
    (hfit : fits vector s.ledgers useReserved = true) {l : ResourceLedger}
    (hl : s.ledgers d = some l) : (vector.get d).toNat = 0 ∨
      l.allocated.toNat + (vector.get d).toNat ≤ (l.headroom useReserved).toNat := by
  rcases fits_iff.mp hfit d with hzero | ⟨l', hl', hle⟩
  · exact .inl (congrArg UInt32.toNat hzero)
  · cases hl.symm.trans hl'
    have hcap := (hb.ledger d l hl).2.2.1
    have hhead := l.headroom_le useReserved
    rw [le_iff_toNat_le, toNat_saturatingAdd] at hle
    exact .inr (by omega)

theorem fits_unregistered {vector : ResourceVector} (hfit : fits vector s.ledgers useReserved = true)
    (hnone : s.ledgers d = none) : (vector.get d).toNat = 0 := by
  rcases fits_iff.mp hfit d with hzero | ⟨l, hl, -⟩
  · exact congrArg UInt32.toNat hzero
  · rw [hnone] at hl
    exact nomatch hl

variable {task : TaskDescriptor F V} {vector : ResourceVector} {note : String}

theorem admit_ledgers (s : Scheduler F V) (d : ResourceDimension) :
    (s.admitTask task vector note).2.ledgers d = (s.ledgers d).map fun l =>
      { l with allocated := saturatingAdd l.allocated (vector.get d) } :=
  foldl_updateAllocated saturatingAdd vector s.ledgers d

theorem admit_liveSum (hnew : s.allocations[task.id]? = none) :
    (s.admitTask task vector note).2.liveSum p d =
      (if p task.id ⟨ownerOf task, vector⟩ then (vector.get d).toNat else 0) + s.liveSum p d :=
  liveSum_insert hnew rfl

theorem admit_account_self (s : Scheduler F V) :
    ((s.admitTask task vector note).2.account (ownerOf task)).currentlyHeld =
      (s.account (ownerOf task)).currentlyHeld.saturatingAddAssign vector := by
  simp [account, admitTask, report]

theorem admit_account_of_ne (ho : o ≠ ownerOf task) :
    (s.admitTask task vector note).2.account o = s.account o := by
  simp [account, admitTask, report, update_of_ne ho]

theorem Balanced.admitTask (hb : Balanced classOf s)
    (hnew : s.allocations[task.id]? = none) (hfit : fits vector s.ledgers useReserved = true)
    (hrt : useReserved = true → classOf task.id = some .realTimeUI) :
    Balanced classOf (s.admitTask task vector note).2 where
  ledger d l' hl' := by
    rw [admit_ledgers, map_eq_some_iff] at hl'
    obtain ⟨l, hl, rfl⟩ := hl'
    obtain ⟨hsum, hcap, hmax, hother⟩ := hb.ledger d l hl
    have hroom := hb.room hfit hl
    have hhead := l.headroom_le useReserved
    have hheadroom : ∀ u, ({ l with allocated := saturatingAdd l.allocated (vector.get d) } :
        ResourceLedger).headroom u = l.headroom u := fun _ => rfl
    have hle : s.liveSum (notRealtime classOf) d ≤ s.liveSum anyTask d := liveSum_le_all
    rw [le_iff_toNat_le] at hcap ⊢
    rw [admit_liveSum hnew, admit_liveSum hnew, toNat_saturatingAdd, hheadroom]
    refine ⟨?_, ?_, hmax, ?_⟩
    · simp only [anyTask, if_true]
      omega
    · change _ ≤ l.capacity.toNat
      omega
    · cases useReserved with
      | true =>
        simp only [notRealtime, hrt rfl, bne_self_eq_false, Bool.false_eq_true, if_false]
        omega
      | false =>
        split <;> omega
  unregistered d hnone := by
    rw [admit_ledgers, map_eq_none_iff] at hnone
    rw [admit_liveSum hnew, hb.unregistered d hnone, fits_unregistered hfit hnone]
    rfl

theorem InStep.admitTask (hb : InStep classOf s)
    (hnew : s.allocations[task.id]? = none) (hfit : fits vector s.ledgers useReserved = true)
    (hrt : useReserved = true → classOf task.id = some .realTimeUI) :
    InStep classOf (s.admitTask task vector note).2 := by
  have hbal : Balanced classOf (s.admitTask task vector note).2 := hb.toBalanced.admitTask hnew hfit hrt
  refine ⟨hbal, fun o d => ?_⟩
  have hlt := hbal.liveSum_lt d
  have hheld := hb.held o d
  have hle : (s.admitTask task vector note).2.liveSum (ownedBy o) d ≤ _ := liveSum_le_all
  rw [admit_liveSum hnew] at hle ⊢
  by_cases ho : ownerOf task = o
  · subst ho
    rw [admit_account_self, get_saturatingAddAssign, toNat_saturatingAdd, hheld]
    have hown : ownedBy (ownerOf task) task.id ⟨ownerOf task, vector⟩ = true := BEq.rfl
    rw [hown] at hle ⊢
    simp only [if_true] at hle ⊢
    omega
  · rw [admit_account_of_ne (Ne.symm ho), hheld]
    simp [ownedBy, ho]

theorem Books.admitTask (hb : Books carried classOf (task :: rest) s)
    (hfit : fits vector s.ledgers useReserved = true) (hrt : useReserved = true → task.class_ = .realTimeUI) :
    Books carried classOf rest (s.admitTask task vector note).2 := by
  obtain ⟨hnew, hclass⟩ := hb.waiting task mem_cons_self
  have hids := nodup_cons.mp hb.ids
  exact {
    accounts := fun hc => (hb.accounts hc).admitTask hnew hfit fun h => hclass.trans (congrArg some (hrt h))
    ids := hids.2
    waiting := by
      intro t ht
      have hne : task.id ≠ t.id := fun h => hids.1 (h ▸ mem_map_of_mem ht)
      obtain ⟨hfree, hcls⟩ := hb.waiting t (mem_cons_of_mem _ ht)
      exact ⟨(get_insert _ _ _ _).trans ((if_neg hne).trans hfree), hcls⟩
    live := by
      intro id a ha
      by_cases hid : task.id = id
      · rw [← hid, hclass]
        rfl
      · exact hb.live id a (((get_insert _ _ _ _).trans (if_neg hid)).symm.trans ha)
    realtime := hb.realtime }

variable {ticket : Ticket} {alloc : Allocation}

/-- `complete` and `cancel` of a live allocation. -/
def Scheduler.giveBack (s : Scheduler F V) (ticket : Ticket) (alloc : Allocation) : Scheduler F V :=
  ({ s with allocations := s.allocations.erase ticket } : Scheduler F V).release alloc

theorem giveBack_ledgers (s : Scheduler F V) (d : ResourceDimension) :
    (s.giveBack ticket alloc).ledgers d = (s.ledgers d).map fun l =>
      { l with allocated := saturatingSub l.allocated (alloc.vector.get d) } :=
  foldl_updateAllocated saturatingSub alloc.vector s.ledgers d

theorem giveBack_liveSum (hlive : s.allocations[ticket]? = some alloc) :
    s.liveSum p d = (if p ticket alloc then (alloc.vector.get d).toNat else 0) +
      (s.giveBack ticket alloc).liveSum p d :=
  liveSum_erase hlive rfl

theorem giveBack_account_self (s : Scheduler F V) (d : ResourceDimension) :
    (((s.giveBack ticket alloc).account alloc.owner).currentlyHeld.get d).toNat =
      ((s.account alloc.owner).currentlyHeld.get d).toNat - (alloc.vector.get d).toNat := by
  rcases ho : s.owners alloc.owner with _ | acc
  · simp [account, giveBack, release, ho, toNat_get_default]
  · simp [account, giveBack, release, ho, toNat_saturatingSub]

theorem giveBack_account_of_ne (ho : o ≠ alloc.owner) :
    (s.giveBack ticket alloc).account o = s.account o := by
  simp [account, giveBack, release, update_of_ne ho]

theorem Balanced.giveBack (hb : Balanced classOf s) (hlive : s.allocations[ticket]? = some alloc) :
    Balanced classOf (s.giveBack ticket alloc) where
  ledger d l' hl' := by
    rw [giveBack_ledgers, map_eq_some_iff] at hl'
    obtain ⟨l, hl, rfl⟩ := hl'
    obtain ⟨hsum, hcap, hmax, hother⟩ := hb.ledger d l hl
    rw [giveBack_liveSum hlive] at hsum hother
    rw [le_iff_toNat_le] at hcap ⊢
    rw [toNat_saturatingSub]
    refine ⟨?_, (Nat.sub_le _ _).trans hcap, hmax, (Nat.le_add_left _ _).trans hother⟩
    simp only [anyTask, if_true] at hsum
    omega
  unregistered d hnone := by
    rw [giveBack_ledgers, map_eq_none_iff] at hnone
    have hzero := hb.unregistered d hnone
    rw [giveBack_liveSum hlive] at hzero
    exact (Nat.add_eq_zero_iff.mp hzero).2

theorem InStep.giveBack (hb : InStep classOf s) (hlive : s.allocations[ticket]? = some alloc) :
    InStep classOf (s.giveBack ticket alloc) where
  toBalanced := hb.toBalanced.giveBack hlive
  held o d := by
    have hheld := hb.held o d
    rw [giveBack_liveSum hlive] at hheld
    by_cases ho : o = alloc.owner
    · subst ho
      have hown : ownedBy alloc.owner ticket alloc = true := BEq.rfl
      rw [giveBack_account_self, hheld, hown, if_pos rfl, Nat.add_sub_cancel_left]
    · rw [giveBack_account_of_ne ho, hheld]
      simp [ownedBy, Ne.symm ho]

theorem Books.giveBack (hb : Books carried classOf pending s) (hlive : s.allocations[ticket]? = some alloc) :
    Books carried classOf pending (s.giveBack ticket alloc) where
  accounts hc := (hb.accounts hc).giveBack hlive
  ids := hb.ids
  waiting t ht := by
    obtain ⟨hfree, hclass⟩ := hb.waiting t ht
    refine ⟨(get_erase _ _ _).trans ?_, hclass⟩
    split
    · rfl
    · exact hfree
  live id a ha := by
    have hget := (get_erase _ _ _).symm.trans ha
    split at hget
    · exact nomatch hget
    · exact hb.live id a hget
  realtime := hb.realtime

/-! ## The waiting tasks -/

theorem Books.drop (hb : Books carried classOf (task :: rest) s) : Books carried classOf rest s :=
  hb.rearrange ((sublist_cons_self _ _).map _).subperm
    (fun t ht => ⟨t, mem_cons_of_mem _ ht, rfl, rfl⟩) hb.realtime

theorem Books.perm {pending' : List (TaskDescriptor F V)} (hb : Books carried classOf pending s)
    (hperm : pending'.Perm pending) : Books carried classOf pending' s :=
  hb.rearrange ((hperm.append_right _).map _).subperm
    (fun t ht => ⟨t, (hperm.append_right _).mem_iff.mp ht, rfl, rfl⟩) hb.realtime

theorem Books.discard (hb : Books carried classOf pending s) : Books carried classOf [] s :=
  hb.rearrange ((sublist_append_right pending _).map _).subperm
    (fun t ht => ⟨t, mem_append_right _ ht, rfl, rfl⟩) hb.realtime

theorem Books.takeRealtime {tasks : List (TaskDescriptor F V)} (hb : Books carried classOf [] s)
    (hperm : tasks.Perm s.realtimeReady) : Books carried classOf tasks { s with realtimeReady := [] } :=
  hb.rearrange ((hperm.append_right s.otherReady).map _).subperm
    (fun t ht => ⟨t, (hperm.append_right s.otherReady).mem_iff.mp ht, rfl, rfl⟩) nofun

theorem Books.takeOther (hb : Books carried classOf [] s) :
    Books carried classOf s.otherReady { s with otherReady := [] } := by
  have hperm : (s.otherReady ++ (s.realtimeReady ++ [])).Perm (s.waiting []) := by
    rw [append_nil]
    exact perm_append_comm
  exact hb.rearrange (hperm.map _).subperm (fun t ht => ⟨t, hperm.mem_iff.mp ht, rfl, rfl⟩) hb.realtime

theorem Books.requeue (hb : Books carried classOf (task :: rest) s) (weight : F) : Books carried classOf rest
      { s with otherReady := s.otherReady ++ [{ task with priorityWeight := weight }] } := by
  refine hb.rearrange ?_ ?_ hb.realtime
  · rw [← append_assoc, ← append_assoc, append_assoc rest, map_append]
    exact (perm_append_singleton _ _).subperm
  · intro t ht
    rw [← append_assoc, ← append_assoc, append_assoc rest] at ht
    rcases mem_append.mp ht with hold | hnew
    · exact ⟨t, mem_cons_of_mem _ hold, rfl, rfl⟩
    · obtain rfl := mem_singleton.mp hnew
      exact ⟨task, mem_cons_self, rfl, rfl⟩

/-! ## Registration, submission and cancellation -/

theorem Books.learn (hb : Books carried classOf pending s) (hnew : classOf id = none)
    (c : SchedClass) : Books carried (Function.update classOf id (some c)) pending s := by
  have hne : ∀ id' c', classOf id' = some c' → id' ≠ id := by
    rintro id' c' hc rfl
    rw [hnew] at hc
    exact nomatch hc
  have hsum : ∀ d, s.liveSum (notRealtime (Function.update classOf id (some c))) d =
      s.liveSum (notRealtime classOf) d := by
    refine fun d => tally_congr fun id' a ha => ?_
    obtain ⟨c', hc'⟩ := isSome_iff_exists.mp (hb.live id' a ha)
    rw [notRealtime, update_of_ne (hne id' c' hc'), notRealtime]
  exact {
    accounts := fun hc => { hb.accounts hc with
      ledger := fun d l hl => by
        rw [hsum]
        exact (hb.accounts hc).ledger d l hl }
    ids := hb.ids
    waiting := fun t ht => by
      obtain ⟨hfree, hclass⟩ := hb.waiting t ht
      exact ⟨hfree, (update_of_ne (hne _ _ hclass) _ _).trans hclass⟩
    live := fun id' a ha => by
      obtain ⟨c', hc'⟩ := isSome_iff_exists.mp (hb.live id' a ha)
      rw [update_of_ne (hne id' c' hc')]
      exact hb.live id' a ha
    realtime := hb.realtime }

theorem registerResourceProvider_ledgers (s : Scheduler F V) (ledger : ResourceLedger)
    (d : ResourceDimension) : (s.registerResourceProvider ledger).ledgers d =
      if d = ledger.dimension then some ledger else s.ledgers d :=
  update_apply _ _ _ _

theorem InStep.register {ledger : ResourceLedger} {h : History F V}
    (hb : InStep h.classOf h.scheduler) (hok : (Op.register ledger : Op F V).CarriesOn h) :
    InStep h.classOf (h.scheduler.registerResourceProvider ledger) := by
  refine { hb with ledger := fun d l hl => ?_, unregistered := fun d hnone => ?_ }
  · rw [registerResourceProvider_ledgers] at hl
    split at hl
    · next hd =>
      subst hd
      obtain rfl := some.inj hl
      exact hok
    · exact hb.ledger d l hl
  · rw [registerResourceProvider_ledgers] at hnone
    split at hnone
    · exact nomatch hnone
    · exact hb.unregistered d hnone

theorem Books.take (hb : Books carried classOf pending s) (hnew : classOf task.id = none) :
    Books carried (Function.update classOf task.id (some task.class_)) (task :: pending) s := by
  have hlearnt := hb.learn hnew task.class_
  refine { hlearnt with ids := ?_, waiting := ?_ }
  · refine nodup_cons.mpr ⟨fun hmem => ?_, hb.ids⟩
    obtain ⟨t, ht, hid⟩ := mem_map.mp hmem
    have hclass := (hb.waiting t ht).2
    rw [hid, hnew] at hclass
    exact nomatch hclass
  · intro t ht
    rcases mem_cons.mp ht with rfl | ht
    · refine ⟨?_, update_self _ _ _⟩
      rcases ha : s.allocations[t.id]? with _ | a
      · rfl
      · have hknown := hb.live _ _ ha
        rw [hnew] at hknown
        exact nomatch hknown
    · exact hlearnt.waiting t ht

theorem Books.submitTask (hb : Books carried classOf [] s) (hnew : classOf task.id = none)
    (monitor : CapabilityMonitor) (now : Instant) :
    Books carried (Function.update classOf task.id (some task.class_)) [] (s.submitTask monitor now task).2 := by
  have htaken := hb.take hnew
  have hother := htaken.requeue task.priorityWeight
  have hrealtime : task.class_ = .realTimeUI → Books carried (Function.update classOf task.id (some task.class_))
      [] { s with realtimeReady := s.realtimeReady ++ [task] } := by
    intro hclass
    have hperm : (s.realtimeReady ++ [task] ++ s.otherReady).Perm (s.waiting [task]) :=
      (perm_append_singleton task s.realtimeReady).append_right s.otherReady
    refine htaken.rearrange (hperm.map _).subperm
      (fun t ht => ⟨t, hperm.mem_iff.mp ht, rfl, rfl⟩) fun t ht => ?_
    rcases mem_append.mp ht with hold | hlast
    · exact hb.realtime t hold
    · rw [mem_singleton.mp hlast]
      exact hclass
  unfold Scheduler.submitTask
  split
  · exact hb.learn hnew _
  · split
    · next hclass => exact hrealtime hclass
    · exact hother

theorem Books.complete (hb : Books carried classOf pending s) (ticket : Ticket) :
    Books carried classOf pending (s.complete ticket).2 := by
  unfold Scheduler.complete
  split
  · exact hb
  · next hlive => exact hb.giveBack hlive

theorem Books.cancel (hb : Books carried classOf pending s) (ticket : Ticket) :
    Books carried classOf pending (s.cancel ticket).2 := by
  have hkeep : ∀ realtime other, realtime.Sublist s.realtimeReady → other.Sublist s.otherReady →
      Books carried classOf pending { s with realtimeReady := realtime, otherReady := other } := by
    intro realtime other hr ho
    have hsub := (List.Sublist.refl pending).append (hr.append ho)
    exact hb.rearrange (hsub.map _).subperm (fun t ht => ⟨t, hsub.subset ht, rfl, rfl⟩)
      fun t ht => hb.realtime t (hr.subset ht)
  unfold Scheduler.cancel
  split
  · next hlive => exact hb.giveBack hlive
  · split
    · exact hkeep _ _ filter_sublist (.refl _)
    · split
      · exact hkeep _ _ (.refl _) filter_sublist
      · exact hb

/-! ## The loops of an epoch -/

theorem insertTail_perm (task : TaskDescriptor F V) (clock : Nat → Instant) (sorted : List (TaskDescriptor F V)) :
    (insertTail task clock sorted).1.Perm (task :: sorted) := by
  induction sorted generalizing clock with
  | nil => exact .refl _
  | cons last rest ih =>
    rw [insertTail]
    split
    · exact ((ih _).cons last).trans (.swap ..)
    · exact .refl _

theorem sortByDeadline_perm (clock : Nat → Instant) (sorted tasks : List (TaskDescriptor F V)) :
    (sortByDeadline clock sorted tasks).Perm (sorted ++ tasks) := by
  induction tasks generalizing clock sorted with
  | nil =>
    rw [append_nil]
    exact reverse_perm sorted
  | cons task tasks ih => exact ((ih _ _).trans ((insertTail_perm ..).append_right tasks)).trans perm_middle.symm

theorem tryAdmit_eq_some
    (h : tryAdmit task ledgers useReserved = some vector) : fits vector ledgers useReserved = true := by
  unfold tryAdmit at h
  split at h
  · next hfit => exact some.inj h ▸ hfit
  · exact nomatch h

theorem Books.dispatchRealtime (hb : Books carried classOf (task :: rest) s) (hclass : task.class_ = .realTimeUI) :
    Books carried classOf rest (s.dispatchRealtime task).2 := by
  unfold Scheduler.dispatchRealtime
  split
  · next hadmit => exact hb.admitTask (tryAdmit_eq_some hadmit) fun _ => hclass
  · exact hb.drop.report _

theorem Books.dispatchRealtimes (tasks : List (TaskDescriptor F V)) (s : Scheduler F V)
    (hb : Books carried classOf (tasks ++ pending) s) (hclass : ∀ t ∈ tasks, t.class_ = .realTimeUI) :
    Books carried classOf pending (dispatchRealtimes tasks s).2 := by
  induction tasks generalizing s with
  | nil => exact hb
  | cons task rest ih =>
    exact ih _ (hb.dispatchRealtime (hclass task mem_cons_self))
      fun t ht => hclass t (mem_cons_of_mem _ ht)

theorem tryDegrade_fits {around : Surroundings F V} {impl : ImplId}
    (h : s.tryDegrade around task = some (impl, vector)) : fits vector s.ledgers false = true := by
  simp only [tryDegrade, bind, bind_eq_some_iff] at h
  obtain ⟨costs, -, ref, -, hfind⟩ := h
  simpa using List.find?_some hfind

variable [F32 F]

theorem Books.dispatchOther (hb : Books carried classOf (task :: rest) s)
    (around : Surroundings F V) : Books carried classOf rest (s.dispatchOther around task).2 := by
  unfold Scheduler.dispatchOther
  split
  · next hadmit => exact hb.admitTask (tryAdmit_eq_some hadmit) nofun
  · split
    · next hdegrade => exact hb.admitTask (tryDegrade_fits hdegrade) nofun
    · split
      · exact hb.drop.report _
      · exact (hb.requeue _).report _

theorem Books.dispatchOthers (around : Nat → Surroundings F V) (n : Nat) (s : Scheduler F V)
    (hb : Books carried classOf pending s) : Books carried classOf [] (dispatchOthers around n pending s).2 := by
  induction n generalizing pending s with
  | zero => exact hb.discard
  | succ n ih =>
    have hsorted := hb.perm (perm_insertionSort (fun a b => s.ranksBefore a b = true) pending)
    unfold dispatchOthers
    split
    · next hnil => rwa [hnil] at hsorted
    · next task rest hcons =>
      rw [hcons] at hsorted
      exact ih _ (hsorted.dispatchOther _)

theorem Books.scheduleEpoch (hb : Books carried classOf [] s) (clock : Nat → Instant)
    (around : Nat → Surroundings F V) : Books carried classOf [] (s.scheduleEpoch clock around).2 := by
  have hperm : (sortByDeadline clock [] s.realtimeReady).Perm s.realtimeReady := sortByDeadline_perm ..
  have hinhand := hb.takeRealtime hperm
  rw [← append_nil (sortByDeadline _ _ _)] at hinhand
  have hfirst := Books.dispatchRealtimes _ _ hinhand fun t ht => hb.realtime t (hperm.mem_iff.mp ht)
  exact Books.dispatchOthers _ _ _ hfirst.takeOther

/-! ## Whole runs -/

variable {h : History F V}

theorem Books.exec (hb : Books carried h.classOf [] h.scheduler) {op : Op F V} (hfresh : op.FreshId h)
    (hcarry : carried → op.CarriesOn h) : Books carried (op.exec h).classOf [] (op.exec h).scheduler := by
  cases op with
  | register ledger => exact { hb with accounts := fun hc => (hb.accounts hc).register (hcarry hc) }
  | submit monitor now task => exact hb.submitTask hfresh monitor now
  | epoch clock around => exact hb.scheduleEpoch clock around
  | complete ticket => exact hb.complete ticket
  | cancel ticket => exact hb.cancel ticket

theorem books_reached (hreach : Reached (fun h (op : Op F V) => op.FreshId h ∧ (carried → op.CarriesOn h)) h) :
    Books carried h.classOf [] h.scheduler := by
  induction hreach with
  | refl => exact books_empty
  | tail _ hstep ih =>
    obtain ⟨op, ⟨hfresh, hcarry⟩, rfl⟩ := hstep
    exact ih.exec hfresh hcarry

/-- **The accounts of the scheduler agree in every run in which no task id is used twice and every
ledger that is registered carries on the account of its dimension.** -/
theorem ledgers_conserved
    (hreach : Reached (fun h (op : Op F V) => op.FreshId h ∧ op.CarriesOn h) h) : Conserved h := by
  have hb : Books True h.classOf [] h.scheduler := books_reached (by simpa using hreach)
  exact (hb.accounts trivial).conserved

/-- **A task is in one place**: no id waits twice, and none that waits holds an allocation. -/
theorem tasks_in_one_place (hreach : Reached Op.FreshId h) :
    ((h.scheduler.waiting []).map TaskDescriptor.id).Nodup ∧
      ∀ t ∈ h.scheduler.waiting [], h.scheduler.allocations[t.id]? = none := by
  have hb : Books False h.classOf [] h.scheduler := books_reached (by simpa using hreach)
  exact ⟨hb.ids, fun t ht => (hb.waiting t ht).1⟩

/-! ## Two runs -/

/-- Exact arithmetic in place of `f32`. -/
instance : F32 ℚ where
  ofU32 n := n.toNat
  zero := 0
  one := 1
  minWeight := 1 / 100
  agingStep := 1 / 20
  add := (· + ·)
  mul := (· * ·)
  div := (· / ·)
  max := max
  partialCmp a b := some (compare a b)

def executor : CapabilityToken × CapabilityMonitor :=
  CapabilityMonitor.new.mintRoot 1 0 .exec 7 none

def cpuTask (id : TaskId) (shares : UInt32) : TaskDescriptor ℚ Unit where
  id := id
  ownerIntent := 1
  ownerAgent := none
  class_ := .realTimeUI
  deadline := none
  priorityWeight := 1
  request := { cpuShares := shares }
  capToken := executor.1
  capabilityRef := none
  args := ()

/-- The ledger is registered, the tasks are submitted, and one epoch is scheduled. -/
def admitted (ledger : ResourceLedger) (tasks : List (TaskDescriptor ℚ Unit)) : History ℚ Unit :=
  let submitted := tasks.foldl (fun h task => (Op.submit executor.2 0 task).exec h)
    ((Op.register ledger).exec .empty)
  (Op.epoch (fun _ => 0) fun _ => ⟨none, none⟩).exec submitted

theorem ledgers_conserved_single :
    (admitted (.new .cpu 10 2) [cpuTask 1 5]).scheduler.liveSum anyTask .cpu = 5 ∧
      Conserved (admitted (.new .cpu 10 2) [cpuTask 1 5]) := by
  refine ⟨by decide +kernel, ledgers_conserved (((Relation.ReflTransGen.refl.tail
    ⟨.register (.new .cpu 10 2), ⟨trivial, ?_⟩, rfl⟩).tail
    ⟨.submit executor.2 0 (cpuTask 1 5), ⟨rfl, trivial⟩, rfl⟩).tail
    ⟨.epoch (fun _ => 0) fun _ => ⟨none, none⟩, ⟨trivial, trivial⟩, rfl⟩)⟩
  exact ⟨by decide +kernel, by decide, by decide, by decide +kernel⟩

/-- A task holds an allocation when its dimension is registered again. -/
def reregistered : History ℚ Unit :=
  (Op.register (.new .cpu 10 2)).exec (admitted (.new .cpu 10 2) [cpuTask 1 5])

theorem reached_reregistered : Reached Op.FreshId reregistered :=
  (((Relation.ReflTransGen.refl.tail ⟨.register _, trivial, rfl⟩).tail
    ⟨.submit executor.2 0 _, rfl, rfl⟩).tail ⟨.epoch _ _, trivial, rfl⟩).tail ⟨.register _, trivial, rfl⟩

theorem tasks_in_one_place_reregistered : ∃ h : History ℚ Unit, h.scheduler.allocations[1]?.isSome = true ∧
    (h.scheduler.waiting []).map TaskDescriptor.id = [2, 3] ∧
      ((h.scheduler.waiting []).map TaskDescriptor.id).Nodup ∧
      ∀ t ∈ h.scheduler.waiting [], h.scheduler.allocations[t.id]? = none := by
  refine ⟨(Op.submit executor.2 0 (cpuTask 3 1)).exec ((Op.submit executor.2 0 (cpuTask 2 1)).exec reregistered),
    by decide +kernel, by decide +kernel, tasks_in_one_place ((reached_reregistered.tail
    ⟨.submit executor.2 0 (cpuTask 2 1), ?_, rfl⟩).tail ⟨.submit executor.2 0 (cpuTask 3 1), ?_, rfl⟩)⟩
  · rfl
  · rfl

/-- **Registering a dimension again forgets what is allocated of it, and at a capacity of `u32::MAX` a
request that overflows is admitted.** -/
theorem reregistration_forgets_allocations :
    (∃ (h : History ℚ Unit) (l : ResourceLedger), Reached Op.FreshId h ∧
      h.scheduler.ledgers .cpu = some l ∧ l.allocated = 0 ∧ h.scheduler.liveSum anyTask .cpu = 5) ∧
    ∃ (h : History ℚ Unit) (l : ResourceLedger), Reached Op.FreshId h ∧
      h.scheduler.ledgers .cpu = some l ∧ l.capacity.toNat = 2 ^ 32 - 1 ∧
        l.allocated.toNat = 2 ^ 32 - 1 ∧ h.scheduler.liveSum anyTask .cpu = 2 ^ 32 := by
  constructor
  · exact ⟨reregistered, .new .cpu 10 2, reached_reregistered, by decide +kernel, rfl, by decide +kernel⟩
  · refine ⟨admitted (.new .cpu (.ofNat (2 ^ 32 - 1)) 0)
      [cpuTask 1 (.ofNat (2 ^ 32 - 1)), cpuTask 2 1],
      { ResourceLedger.new .cpu (.ofNat (2 ^ 32 - 1)) 0 with allocated := .ofNat (2 ^ 32 - 1) },
      ?_, by decide +kernel, rfl, rfl, by decide +kernel⟩
    exact (((Relation.ReflTransGen.refl.tail ⟨.register _, trivial, rfl⟩).tail
      ⟨.submit executor.2 0 (cpuTask 1 _), rfl, rfl⟩).tail
      ⟨.submit executor.2 0 (cpuTask 2 _), rfl, rfl⟩).tail ⟨.epoch _ _, trivial, rfl⟩

end

end Hyperion.Sched
