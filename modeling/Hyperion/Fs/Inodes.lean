import Hyperion.Lib.HashMap
import Hyperion.Lib.Run

/-!
# The inode table of a mount

`ino_for` looks a path up, takes a number and enters the pair in two maps: four critical sections, between which
other threads run. Two calls that both miss hand out two numbers for one path.
-/

namespace Hyperion.Fs
open Lib HashMap

/-- A `u64`. -/
abbrev Ino := Nat

def rootIno : Ino := 1

structure InodeTable where
  next : Ino
  byIno : HashMap Ino String
  byPath : HashMap String Ino

def InodeTable.new : InodeTable := ⟨rootIno + 1, .insert ∅ rootIno "", .insert ∅ "" rootIno⟩

def InodeTable.pathFor (t : InodeTable) (ino : Ino) : Option String := t.byIno[ino]?

/-- How far a call of `ino_for` that did not find its path has come. -/
inductive Stage
  | missed
  | numbered (ino : Ino)
  | recorded (ino : Ino)

/-- The table, the calls of each thread that are past their lookup, and two histories: the path that each number
was taken for, and what calls have returned. -/
structure Mount where
  inodes : InodeTable
  calls : HashMap Nat (String × Stage)
  taken : HashMap Ino String
  handed : List (String × Ino)

def Mount.new : Mount := ⟨.new, ∅, .insert ∅ rootIno "", []⟩

/-- A critical section. -/
inductive Event
  | lookup (thread : Nat) (path : String)
  | proceed (thread : Nat)
  | pathFor (ino : Ino)

def Mount.step (w : Mount) : Event → Mount
  | .lookup thread path =>
    match w.calls[thread]?, w.inodes.byPath[path]? with
    | some _, _ => w
    | none, some ino => { w with handed := (path, ino) :: w.handed }
    | none, none => { w with calls := w.calls.insert thread (path, .missed) }
  | .proceed thread =>
    match w.calls[thread]? with
    | none => w
    | some (path, .missed) => { w with
        inodes.next := (w.inodes.next + 1) % 2 ^ 64
        taken := w.taken.insert w.inodes.next path
        calls := w.calls.insert thread (path, .numbered w.inodes.next) }
    | some (path, .numbered ino) => { w with
        inodes.byIno := w.inodes.byIno.insert ino path
        calls := w.calls.insert thread (path, .recorded ino) }
    | some (path, .recorded ino) => { w with
        inodes.byPath := w.inodes.byPath.insert path ino
        calls := w.calls.erase thread
        handed := (path, ino) :: w.handed }
  | .pathFor _ => w

/-- No path with two numbers, no number for two paths, and the root at its own. -/
structure Bijective (w : Mount) : Prop where
  path : ∀ p i j, (p, i) ∈ w.handed → (p, j) ∈ w.handed → i = j
  ino : ∀ p q i, (p, i) ∈ w.handed → (q, i) ∈ w.handed → p = q
  back : ∀ p i, (p, i) ∈ w.handed → w.inodes.pathFor i = some p
  root : w.inodes.byPath[""]? = some rootIno ∧ w.inodes.pathFor rootIno = some ""

/-- The numbers are not used up, and no call goes on for a path that another has entered since its lookup. -/
def Careful (w : Mount) : Event → Prop
  | .proceed thread => w.inodes.next + 1 < 2 ^ 64 ∧ ∀ c ∈ w.calls[thread]?, w.inodes.byPath[c.1]? = none
  | _ => True

/-- The numbers are not used up. -/
def Unspent (w : Mount) : Event → Prop
  | .proceed _ => w.inodes.next + 1 < 2 ^ 64
  | _ => True

/-- What also holds where calls race: a number belongs to the path that it was taken for. -/
structure Named (w : Mount) : Prop where
  below : ∀ (i : Ino) p, w.taken[i]? = some p → i < w.inodes.next
  numbered : ∀ (t : Nat) p i, w.calls[t]? = some (p, .numbered i) → w.taken[i]? = some p
  byIno : ∀ (i : Ino) p, w.inodes.byIno[i]? = some p → w.taken[i]? = some p
  recorded : ∀ (t : Nat) p i, w.calls[t]? = some (p, .recorded i) → w.inodes.byIno[i]? = some p
  entries : ∀ (p : String) (i : Ino), w.inodes.byPath[p]? = some i → w.inodes.byIno[i]? = some p
  named : ∀ x ∈ w.handed, w.inodes.byIno[x.2]? = some x.1

theorem Named.new : Named Mount.new := by
  constructor <;> simp [Mount.new, InodeTable.new, get_insert, rootIno]

theorem Named.step {w : Mount} (S : Named w) {e : Event} (he : Unspent w e) : Named (w.step e) := by
  cases e with
  | lookup thread path =>
    rw [Mount.step]
    split
    · exact S
    · next hfound => exact { S with named := List.forall_mem_cons.mpr ⟨S.entries _ _ hfound, S.named⟩ }
    · exact { S with
        numbered := by grind [get_insert, S.numbered]
        recorded := by grind [get_insert, S.recorded] }
  | proceed thread =>
    rw [Mount.step]
    split
    · exact S
    · next path _ =>
      -- The number is above those that have been taken, so none of them is taken again.
      have hkeep : ∀ (i : Ino) p, w.taken[i]? = some p →
          (w.taken.insert w.inodes.next path)[i]? = some p := by
        intro i p hp
        rw [get_insert, if_neg (S.below i p hp).ne', hp]
      rw [Nat.mod_eq_of_lt he]
      exact { S with
        below := fun i p h => by
          rw [get_insert] at h
          split at h
          · next heq => exact heq ▸ Nat.lt_succ_self _
          · exact (S.below i p h).trans (Nat.lt_succ_self _)
        numbered := by grind [get_insert, S.numbered]
        byIno := fun i p h => hkeep i p (S.byIno i p h)
        recorded := by grind [get_insert, S.recorded] }
    · next path ino hcall =>
      -- The number has been taken for this path, so an entry that it has is for this path.
      have hkeep : ∀ (i : Ino) p, w.inodes.byIno[i]? = some p →
          (w.inodes.byIno.insert ino path)[i]? = some p := by
        intro i p hp
        rw [get_insert]
        split
        · next heq => rw [← S.byIno i p hp, ← heq, S.numbered thread path ino hcall]
        · exact hp
      exact { S with
        numbered := by grind [get_insert, S.numbered]
        byIno := by grind [get_insert, S.byIno, S.numbered]
        recorded := by grind [get_insert, S.recorded]
        entries := fun p i h => hkeep i p (S.entries p i h)
        named := fun x hx => hkeep _ _ (S.named x hx) }
    · next path ino hcall =>
      exact { S with
        numbered := by grind [get_erase, S.numbered]
        recorded := by grind [get_erase, S.recorded]
        entries := by grind [get_insert, S.entries, S.recorded]
        named := List.forall_mem_cons.mpr ⟨S.recorded _ _ _ hcall, S.named⟩ }
  | pathFor ino => exact S

/-- **However calls race, a number that was handed out names its path from then on**, and no other path gets it. -/
theorem handed_names_path (events : List Event) (h : Meets Mount.step Unspent Mount.new events) :
    ∀ x ∈ (run Mount.step Mount.new events).handed,
      (run Mount.step Mount.new events).inodes.pathFor x.2 = some x.1 ∧
      ∀ y ∈ (run Mount.step Mount.new events).handed, y.2 = x.2 → y.1 = x.1 := by
  intro x hx
  have S : Named (run Mount.step Mount.new events) := h.invariant (fun _ _ hs he => hs.step he) Named.new
  refine ⟨S.named x hx, fun y hy heq => ?_⟩
  exact Option.some.inj ((S.named y hy).symm.trans (heq ▸ S.named x hx))

/-- Two calls for one path that both miss. -/
def race : List Event := [.lookup 0 "a", .lookup 1 "a", .proceed 0, .proceed 0, .proceed 0, .proceed 1, .proceed 1,
  .proceed 1]

theorem handed_names_path_race : (run Mount.step Mount.new race).inodes.pathFor 3 = some "a" := by
  refine (handed_names_path race ⟨trivial, trivial, ?_, ?_, ?_, ?_, ?_, ?_, trivial⟩ ("a", 3)
    (by decide +kernel)).1 <;>
  · show _ < _
    decide +kernel

structure Entered (w : Mount) : Prop where
  handed : ∀ x ∈ w.handed, w.inodes.byPath[x.1]? = some x.2
  root : w.inodes.byPath[""]? = some rootIno

theorem Entered.step {w : Mount} (S : Entered w) {e : Event} (he : Careful w e) : Entered (w.step e) := by
  cases e with
  | lookup thread path =>
    rw [Mount.step]
    split
    · exact S
    · next hfound => exact ⟨List.forall_mem_cons.mpr ⟨hfound, S.handed⟩, S.root⟩
    · exact { S with }
  | proceed thread =>
    rw [Mount.step]
    split
    case h_4 path ino hcall =>
      have hnew : w.inodes.byPath[path]? = none := he.2 _ hcall
      have hkeep : ∀ (p : String) (i : Ino), w.inodes.byPath[p]? = some i →
          (w.inodes.byPath.insert path ino)[p]? = some i := by
        grind [get_insert]
      exact ⟨List.forall_mem_cons.mpr ⟨by simp, fun x hx => hkeep _ _ (S.handed x hx)⟩, hkeep _ _ S.root⟩
    all_goals exact { S with }
  | pathFor ino => exact S

theorem Careful.unspent {w : Mount} {e : Event} (h : Careful w e) : Unspent w e := by
  cases e with
  | proceed => exact h.1
  | _ => trivial

/-- **The inode table is a bijection** at every moment of a run whose critical sections are careful. -/
theorem bijective_of_careful (events : List Event) (h : Meets Mount.step Careful Mount.new events) :
    Bijective (run Mount.step Mount.new events) := by
  have N : Named (run Mount.step Mount.new events) := h.invariant (fun _ _ hs he => hs.step he.unspent) Named.new
  have S : Entered (run Mount.step Mount.new events) := h.invariant (fun _ _ hs he => hs.step he) ⟨nofun, rfl⟩
  refine ⟨fun p i j hi hj => ?_, fun p q i hp hq => ?_, fun p i hp => N.named _ hp, S.root, N.entries _ _ S.root⟩
  · exact Option.some.inj ((S.handed _ hi).symm.trans (S.handed _ hj))
  · exact Option.some.inj ((N.named _ hp).symm.trans (N.named _ hq))

/-- Two calls for two paths take turns, and the second path is asked for again. -/
def twoPaths : List Event :=
  [.lookup 0 "a", .lookup 1 "b", .proceed 0, .proceed 1, .proceed 1, .proceed 0, .proceed 0, .proceed 1, .lookup 0 "b",
    .pathFor 2]

theorem bijective_of_careful_twoPaths : (run Mount.step Mount.new twoPaths).handed = [("b", 3), ("b", 3), ("a", 2)] ∧
    Bijective (run Mount.step Mount.new twoPaths) := by
  refine ⟨by decide +kernel, bijective_of_careful _ ⟨trivial, trivial, ⟨?_, ?_⟩, ⟨?_, ?_⟩, ⟨?_, ?_⟩, ⟨?_, ?_⟩,
    ⟨?_, ?_⟩, ⟨?_, ?_⟩, trivial, trivial, trivial⟩⟩ <;> decide +kernel

/-- **Two calls that race on one path hand out two numbers for it.** -/
theorem two_numbers_for_one_path :
    (run Mount.step Mount.new race).handed = [("a", 3), ("a", 2)] := by
  decide +kernel

end Hyperion.Fs
