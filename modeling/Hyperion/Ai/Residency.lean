import Hyperion.Lib.MinBy
import Hyperion.Sched.Core
import Hyperion.Ai.Registry

/-!
# The residency manager

Which models are in memory. `makeRoom` evicts, while the wanted footprint does not fit, the model of
least value that is resident and not pinned; the value of a model is any function of its entry and the
time. A footprint is entered when a model becomes resident and taken out when it is evicted.
-/

namespace Hyperion.Ai
open Lib Sched

inductive ResidencyStatus
  | hot
  | warm
  | cold
deriving DecidableEq, Repr

structure ResidencyEntry (F : Type) where
  modelId : ModelId
  status : ResidencyStatus
  lastUsed : Nat
  pinCount : UInt32
  predictedNextUse : F
deriving DecidableEq, Repr

structure ResidencyManager (F : Type) where
  entries : HashMap ModelId (ResidencyEntry F)
  footprints : HashMap ModelId UInt32
  usedMb : UInt32

/-- What an eviction depends on besides the manager: how values compare, and the order in which the
entries are visited. -/
structure Eviction (F : Type) where
  value : Nat → ResidencyEntry F → F
  partialCmp : F → F → Option Ordering
  visit : Visit (ResidencyEntry F)

namespace ResidencyManager

section
variable {F : Type}

def empty : ResidencyManager F := ⟨∅, ∅, 0⟩

variable (m : ResidencyManager F)

def capacityAvailable (totalMb : UInt32) : UInt32 :=
  saturatingSub totalMb m.usedMb

def isHot (modelId : ModelId) : Bool :=
  m.entries[modelId]?.any fun e => e.status = .hot

/-- `if let Some(entry) = self.entries.get_mut(&model_id)`. -/
def update (modelId : ModelId) (f : ResidencyEntry F → ResidencyEntry F) : ResidencyManager F :=
  { m with entries := m.entries.modify modelId f }

def touch (modelId : ModelId) (now : Nat) : ResidencyManager F :=
  m.update modelId fun e => { e with lastUsed := now }

def pin (modelId : ModelId) : ResidencyManager F :=
  m.update modelId fun e => { e with pinCount := e.pinCount + 1 }

def unpin (modelId : ModelId) : ResidencyManager F :=
  m.update modelId fun e => { e with pinCount := saturatingSub e.pinCount 1 }

def setPredictedNextUse (modelId : ModelId) (value : F) : ResidencyManager F :=
  m.update modelId fun e => { e with predictedNextUse := value }

def evict (modelId : ModelId) : ResidencyManager F :=
  { entries := (m.update modelId fun e => { e with status := .cold }).entries
    footprints := m.footprints.erase modelId
    usedMb := m.footprints[modelId]?.elim m.usedMb (saturatingSub m.usedMb) }

/-- The entry that `make_room` evicts next. -/
def victim (rule : Eviction F) (now : Nat) : Option (ResidencyEntry F) :=
  minBy (fun a b => (rule.partialCmp (rule.value now a) (rule.value now b)).getD .eq)
    ((rule.visit.values m.entries).filter fun e => e.status ≠ .cold ∧ e.pinCount = 0)

def makeRoomLoop (rule : Eviction F) (footprintMb totalMb : UInt32) (now : Nat) :
    Nat → ResidencyManager F → Option (Bool × ResidencyManager F)
  | 0, _ => none
  | fuel + 1, m =>
    if m.capacityAvailable totalMb < footprintMb then
      match m.victim rule now with
      | some e => makeRoomLoop rule footprintMb totalMb now fuel (m.evict e.modelId)
      | none => some (false, m)
    else some (true, m)

/-- `make_room`. Every eviction takes a footprint out, so there are no more rounds than footprints and a
last one. -/
def makeRoom (rule : Eviction F) (footprintMb totalMb : UInt32) (now : Nat) :
    Option (Bool × ResidencyManager F) :=
  makeRoomLoop rule footprintMb totalMb now (m.footprints.size + 1) m

def resident (modelId : ModelId) : Bool :=
  m.entries[modelId]?.any fun e => e.status ≠ .cold

def markHot [Zero F] (modelId : ModelId) (footprintMb : UInt32) (now : Nat) : ResidencyManager F :=
  let wasResident := m.resident modelId
  { entries := m.entries.insert modelId <|
      match m.entries[modelId]? with
      | some e => { e with status := .hot, lastUsed := now }
      | none => { modelId, status := .hot, lastUsed := now, pinCount := 0, predictedNextUse := 0 }
    footprints := if wasResident then m.footprints else m.footprints.insert modelId footprintMb
    usedMb := if wasResident then m.usedMb else m.usedMb + footprintMb }

end

end ResidencyManager

end Hyperion.Ai
