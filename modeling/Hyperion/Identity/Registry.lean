import Hyperion.Capability.Monitor
import Hyperion.Lib.DocFile
import Hyperion.Lib.Run

/-!
# The people of a device

`PrincipalRegistry` of `hyperion-identity`: a boundary for every user name, kept in memory and in a file. A
new name is put into memory first and then the whole map is written; if the write fails the name stays in
memory, and the next call for it answers without another write. A process that starts takes the boundary
after the highest one in the file as the next to hand out.
-/

namespace Hyperion.Identity
open Lib Capability List HashMap Option

/-! ## Names -/

inductive UserIdError
  | empty
  | invalid (name : String)
deriving DecidableEq, Repr

def maxUserId : Nat := 64

def legal (name : String) : Bool :=
  name.utf8ByteSize ≤ maxUserId && name.toList.head? != some '-' && name.toList.head? != some '.' &&
    name.toList.all fun c => c.isLower || c.isDigit || c == '-' || c == '_' || c == '.'

/-- A name that `UserId::new` accepts. -/
structure UserId where
  name : String
  valid : name.isEmpty = false ∧ legal name = true

namespace UserId

def new (name : String) : Except UserIdError UserId :=
  if hempty : name.isEmpty = false then
    if hlegal : legal name = true then .ok ⟨name, hempty, hlegal⟩ else .error (.invalid name)
  else .error .empty

theorem ext_name {u v : UserId} (h : u.name = v.name) : u = v := by
  cases u
  cases v
  cases h
  rfl

instance : DecidableEq UserId := fun u v =>
  decidable_of_iff (u.name = v.name) ⟨ext_name, congrArg name⟩

instance : Ord UserId := ⟨compareOn name⟩

instance : Std.TransOrd UserId := inferInstanceAs (Std.TransCmp (compareOn UserId.name))

instance : Std.LawfulEqOrd UserId where
  eq_of_compare h := ext_name (Std.LawfulEqOrd.compare_eq_iff_eq.mp h)

theorem new_name (u : UserId) : new u.name = .ok u := by
  rw [new, dif_pos u.valid.1, dif_pos u.valid.2]

end UserId

structure Principal where
  user : UserId
  boundary : TrustBoundaryId
deriving DecidableEq

/-- The causes of `Read` apart, without their texts. -/
inductive RegistryError
  | userId (err : UserIdError)
  | unreadable
  | misshapen
  | notANumber (name : String)
  | write
deriving DecidableEq, Repr

/-! ## The registry -/

def firstUserBoundary : Nat := 1000

structure PrincipalRegistry where
  boundaries : HashMap UserId Nat
  nextBoundary : Nat

def asU64 : Json → Option Nat
  | .int (.ofNat n) => if n < 2 ^ 64 then some n else none
  | _ => none

def usersOf : Json → Option (List (String × Json))
  | .obj fields =>
    match fields.lookup "users" with
    | some (.obj entries) => some entries
    | _ => none
  | _ => none

def loadUsers : List (String × Json) → HashMap UserId Nat → Except RegistryError (HashMap UserId Nat)
  | [], boundaries => .ok boundaries
  | (name, value) :: entries, boundaries =>
    match UserId.new name with
    | .error err => .error (.userId err)
    | .ok user =>
      match asU64 value with
      | none => .error (.notANumber name)
      | some boundary => loadUsers entries (boundaries.insert user boundary)

/-- The boundary after the highest; a `u64`. -/
def nextAfter (boundaries : HashMap UserId Nat) : Nat :=
  match (boundaries.toList.map (·.2)).max? with
  | some highest => (highest + 1) % 2 ^ 64
  | none => firstUserBoundary

def document (boundaries : HashMap UserId Nat) : Json :=
  .obj [("users", .obj (boundaries.toList.map fun (user, boundary) => (user.name, .int boundary)))]

section
variable (P : DocFormat Json)

def openOrCreate (file : Option (List UInt8)) : Except RegistryError PrincipalRegistry :=
  match P.contents file with
  | .missing => .ok ⟨∅, firstUserBoundary⟩
  | .unreadable => .error .unreadable
  | .document value =>
    match usersOf value with
    | none => .error .misshapen
    | some entries =>
      match loadUsers entries ∅ with
      | .error err => .error err
      | .ok boundaries => .ok ⟨boundaries, nextAfter boundaries⟩

namespace PrincipalRegistry

/-- `persist`; a directory that cannot be created leaves the file untouched. -/
def persist (reg : PrincipalRegistry) (file : Option (List UInt8)) (how : WriteEnd) :
    Except RegistryError Unit × Option (List UInt8) :=
  match writeFile file (P.print (document reg.boundaries)) how with
  | (true, file) => (.ok (), file)
  | (false, file) => (.error .write, file)

def enlist (reg : PrincipalRegistry) (user : UserId) : PrincipalRegistry :=
  ⟨reg.boundaries.insert user reg.nextBoundary, (reg.nextBoundary + 1) % 2 ^ 64⟩

def principalFor (reg : PrincipalRegistry) (file : Option (List UInt8)) (name : String) (how : WriteEnd) :
    Except RegistryError Principal × PrincipalRegistry × Option (List UInt8) :=
  match UserId.new name with
  | .error err => (.error (.userId err), reg, file)
  | .ok user =>
    match reg.boundaries[user]? with
    | some boundary => (.ok ⟨user, boundary⟩, reg, file)
    | none =>
      let boundary := reg.nextBoundary
      let reg := reg.enlist user
      match reg.persist P file how with
      | (.error err, file) => (.error err, reg, file)
      | (.ok (), file) => (.ok ⟨user, boundary⟩, reg, file)

section
variable (reg : PrincipalRegistry) (file : Option (List UInt8)) (name : String) (how : WriteEnd)

/-- The ways a call of `principal_for` can end. -/
inductive Answer : Except RegistryError Principal × PrincipalRegistry × Option (List UInt8) → Prop
  | invalid {err : UserIdError} (hname : UserId.new name = .error err) : Answer (.error (.userId err), reg, file)
  | known {user : UserId} {boundary : Nat} (hname : UserId.new name = .ok user)
      (hknown : reg.boundaries[user]? = some boundary) : Answer (.ok ⟨user, boundary⟩, reg, file)
  | enlisted {user : UserId} {result : Except RegistryError Unit} {file' : Option (List UInt8)}
      (hname : UserId.new name = .ok user) (hnew : reg.boundaries[user]? = none)
      (hpersist : (reg.enlist user).persist P file how = (result, file')) :
      Answer (result.map fun _ => ⟨user, reg.nextBoundary⟩, reg.enlist user, file')

theorem principalFor_answer : Answer P reg file name how (reg.principalFor P file name how) := by
  unfold principalFor
  cases hname : UserId.new name with
  | error err => exact .invalid hname
  | ok user =>
    cases hknown : reg.boundaries[user]? with
    | some boundary =>
      simp only [hknown]
      exact .known hname hknown
    | none =>
      simp only [hknown]
      split <;> next hpersist => exact Answer.enlisted hname hknown hpersist

end

end PrincipalRegistry

/-! ## The lifetime of a registry file -/

/-- A file, the process that has it open, and the boundaries that `principal_for` has ever returned. -/
structure Device where
  process : Option PrincipalRegistry
  file : Option (List UInt8)
  handed : List (UserId × TrustBoundaryId)

inductive Event
  | principalFor (name : String) (how : WriteEnd)
  | restart
deriving DecidableEq, Repr

namespace Device

def new : Device := ⟨none, none, []⟩

def step (d : Device) : Event → Device
  | .restart => { d with process := (openOrCreate P d.file).toOption }
  | .principalFor name how =>
    match d.process with
    | none => d
    | some reg =>
      match reg.principalFor P d.file name how with
      | (.ok principal, reg, file) => ⟨some reg, file, (principal.user, principal.boundary) :: d.handed⟩
      | (.error _, reg, file) => ⟨some reg, file, d.handed⟩

end Device

def OneToOne (handed : List (UserId × TrustBoundaryId)) : Prop :=
  ∀ p ∈ handed, ∀ q ∈ handed, p.1 = q.1 ↔ p.2 = q.2

/-- A start from the file would fail, or know the name under the boundary. -/
def survives (file : Option (List UInt8)) (user : UserId) (boundary : Nat) : Bool :=
  match openOrCreate P file with
  | .ok reg => reg.boundaries[user]? = some boundary
  | .error _ => true

/-- A name that is in memory is asked for only if the file does not lack it, and a new one only while there
are boundaries left. -/
def Careful (d : Device) : Event → Prop
  | .restart => True
  | .principalFor name _ =>
    match d.process, UserId.new name with
    | some reg, .ok user =>
      match reg.boundaries[user]? with
      | some boundary => survives P d.file user boundary = true
      | none => reg.nextBoundary + 1 < 2 ^ 64
    | _, _ => True

instance (d : Device) (event : Event) : Decidable (Careful P d event) := by
  unfold Careful
  split
  · infer_instance
  · split
    · split <;> infer_instance
    · infer_instance

end

/-! ## What is handed out is on record -/

/-- Nobody shares a boundary, and the next one is above all. -/
structure PrincipalRegistry.Sound (reg : PrincipalRegistry) : Prop where
  injective : ∀ (u v : UserId) b, reg.boundaries[u]? = some b → reg.boundaries[v]? = some b → u = v
  below : ∀ (u : UserId) b, reg.boundaries[u]? = some b → b < reg.nextBoundary
  bounded : reg.nextBoundary < 2 ^ 64

/-- The registry knows everybody to whom a boundary was handed out. -/
structure PrincipalRegistry.Keeps (reg : PrincipalRegistry) (handed : List (UserId × TrustBoundaryId)) :
    Prop extends reg.Sound where
  known : ∀ p ∈ handed, reg.boundaries[p.1]? = some p.2

variable {reg : PrincipalRegistry}

theorem PrincipalRegistry.Keeps.oneToOne {handed : List (UserId × TrustBoundaryId)}
    (h : reg.Keeps handed) : OneToOne handed := by
  intro p hp q hq
  have hpk := h.known p hp
  have hqk := h.known q hq
  constructor
  · intro heq
    rw [heq, hqk] at hpk
    exact (some.inj hpk).symm
  · intro heq
    rw [heq] at hpk
    exact h.injective _ _ _ hpk hqk

theorem asU64_int {n : Nat} (h : n < 2 ^ 64) : asU64 (.int n) = some n := by
  exact if_pos h

theorem loadUsers_entries {entries : List (UserId × Nat)} (h : ∀ e ∈ entries, e.2 < 2 ^ 64)
    (boundaries : HashMap UserId Nat) :
    loadUsers (entries.map fun (user, boundary) => (user.name, .int boundary)) boundaries =
      .ok (entries.foldl (fun m e => m.insert e.1 e.2) boundaries) := by
  induction entries generalizing boundaries with
  | nil => rfl
  | cons e entries ih =>
    rw [map_cons, loadUsers, UserId.new_name]
    simp only [asU64_int (h e mem_cons_self), foldl_cons]
    exact ih (fun f hf => h f (mem_cons_of_mem _ hf)) _

theorem loadUsers_toList (h : reg.Sound) :
    loadUsers (reg.boundaries.toList.map fun (user, boundary) => (user.name, .int boundary)) ∅ =
      .ok reg.boundaries := by
  rw [loadUsers_entries]
  · exact congrArg Except.ok (ofEntries_toList reg.boundaries)
  · intro e he
    rw [Std.ExtTreeMap.mem_toList_iff_getElem?_eq_some] at he
    exact (h.below _ _ he).trans h.bounded

theorem sound_nextAfter (h : reg.Sound) :
    PrincipalRegistry.Sound ⟨reg.boundaries, nextAfter reg.boundaries⟩ := by
  have hmem : ∀ b, b ∈ reg.boundaries.toList.map (·.2) ↔ ∃ u : UserId, reg.boundaries[u]? = some b := by
    intro b
    simp [Std.ExtTreeMap.mem_toList_iff_getElem?_eq_some]
  have hnext : (∀ (u : UserId) b, reg.boundaries[u]? = some b → b < nextAfter reg.boundaries) ∧
      nextAfter reg.boundaries < 2 ^ 64 := by
    unfold nextAfter
    split
    · next highest hmax =>
      obtain ⟨hin, hle⟩ := List.max?_eq_some_iff.mp hmax
      obtain ⟨u, hu⟩ := (hmem highest).mp hin
      have hlt : highest + 1 < 2 ^ 64 := lt_of_le_of_lt (h.below u highest hu) h.bounded
      rw [Nat.mod_eq_of_lt hlt]
      exact ⟨fun v b hb => Nat.lt_succ_of_le (hle b ((hmem b).mpr ⟨v, hb⟩)), hlt⟩
    · next hmax =>
      refine ⟨fun v b hb => ?_, by decide⟩
      have hin := (hmem b).mpr ⟨v, hb⟩
      rw [List.max?_eq_none_iff.mp hmax] at hin
      exact absurd hin not_mem_nil
  exact ⟨h.injective, hnext.1, hnext.2⟩

section
variable {P : DocFormat Json} {reg : PrincipalRegistry} {handed : List (UserId × TrustBoundaryId)}

variable (P) in
abbrev Readable : Prop := P.Lawful fun j => ∃ boundaries, j = document boundaries

/-- What memory and file know of what was handed out. -/
structure Recorded (P : DocFormat Json) (d : Device) : Prop where
  process : ∀ reg, d.process = some reg → reg.Keeps d.handed
  file : ∀ reg, openOrCreate P d.file = .ok reg → reg.Keeps d.handed

theorem openOrCreate_congr {file file' : Option (List UInt8)} (h : P.contents file = P.contents file') :
    openOrCreate P file = openOrCreate P file' := by
  rw [openOrCreate, h, openOrCreate]

variable {p : UserId × TrustBoundaryId} {file : Option (List UInt8)} {user : UserId}

theorem openOrCreate_document (h : reg.Sound)
    (hfile : P.contents file = .document (document reg.boundaries)) :
    openOrCreate P file = .ok ⟨reg.boundaries, nextAfter reg.boundaries⟩ := by
  have husers : usersOf (document reg.boundaries) =
      some (reg.boundaries.toList.map fun (user, boundary) => (user.name, .int boundary)) := rfl
  rw [openOrCreate, hfile]
  simp only [husers, loadUsers_toList h]

theorem recorded_new : Recorded P .new where
  process reg h := by cases h
  file reg h := by
    cases h
    refine ⟨⟨fun u v b hu => ?_, fun u b hu => ?_, by decide⟩, fun p hp => absurd hp not_mem_nil⟩
    · simp at hu
    · simp at hu

theorem PrincipalRegistry.Keeps.enlist (h : reg.Keeps handed)
    (hnew : reg.boundaries[user]? = none) (hroom : reg.nextBoundary + 1 < 2 ^ 64) :
    (reg.enlist user).Keeps ((user, reg.nextBoundary) :: handed) := by
  have hfresh : ∀ (v : UserId) b, reg.boundaries[v]? = some b → b ≠ reg.nextBoundary := fun v b hb =>
    (h.below v b hb).ne
  rw [PrincipalRegistry.enlist, Nat.mod_eq_of_lt hroom]
  refine ⟨⟨fun u v b hu hv => ?_, fun u b hu => ?_, hroom⟩, fun p hp => ?_⟩
  · rw [get_insert] at hu hv
    split at hu
    · next huser =>
      cases hu
      split at hv
      · next hvser => exact huser.symm.trans hvser
      · exact absurd rfl (hfresh v _ hv)
    · split at hv
      · cases hv
        exact absurd rfl (hfresh u _ hu)
      · exact h.injective u v b hu hv
  · rw [get_insert] at hu
    split at hu
    · cases hu
      exact Nat.lt_succ_self _
    · exact Nat.lt_succ_of_lt (h.below u b hu)
  · rw [get_insert]
    rcases mem_cons.mp hp with rfl | hp
    · exact if_pos rfl
    · have hknown := h.known p hp
      have hne : user ≠ p.1 := by
        rintro rfl
        cases hnew.symm.trans hknown
      rw [if_neg hne]
      exact hknown

theorem PrincipalRegistry.Keeps.cons (h : reg.Keeps handed) {boundary : Nat}
    (hknown : reg.boundaries[user]? = some boundary) : reg.Keeps ((user, boundary) :: handed) :=
  { h with known := forall_mem_cons.mpr ⟨hknown, h.known⟩ }

theorem PrincipalRegistry.Keeps.of_cons (h : reg.Keeps (p :: handed)) : reg.Keeps handed :=
  { h with known := fun q hq => h.known q (mem_cons_of_mem _ hq) }

theorem keeps_persist (L : Readable P) (h : reg.Keeps (p :: handed))
    (hfile : ∀ old, openOrCreate P file = .ok old → old.Keeps handed)
    (how : WriteEnd) : ∀ found, openOrCreate P (reg.persist P file how).2 = .ok found →
      found.Keeps handed ∧ ((reg.persist P file how).1 = .ok () → found.Keeps (p :: handed)) := by
  have hwritten := L.contents_write ⟨reg.boundaries, rfl⟩ file how
  have hsnd : (reg.persist P file how).2 = (writeFile file (P.print (document reg.boundaries)) how).2 := by
    unfold PrincipalRegistry.persist
    split <;> next hres => rw [hres]
  have hfst : (reg.persist P file how).1 = .ok () →
      (writeFile file (P.print (document reg.boundaries)) how).1 = true := by
    unfold PrincipalRegistry.persist
    split <;> next hres =>
      rw [hres]
      simp
  intro found hfound
  rw [hsnd] at hfound
  rcases hwritten with hnew | ⟨hfailed, hbroken | hsame⟩
  · rw [openOrCreate_document h.toSound hnew] at hfound
    cases hfound
    have hkeeps : PrincipalRegistry.Keeps ⟨reg.boundaries, nextAfter reg.boundaries⟩ (p :: handed) :=
      ⟨sound_nextAfter h.toSound, h.known⟩
    exact ⟨hkeeps.of_cons, fun _ => hkeeps⟩
  · rw [openOrCreate, hbroken] at hfound
    cases hfound
  · rw [openOrCreate_congr hsame] at hfound
    refine ⟨hfile found hfound, fun hok => ?_⟩
    cases hfailed.symm.trans (hfst hok)

theorem Recorded.step (L : Readable P) {d : Device} {event : Event} (h : Recorded P d)
    (hcareful : Careful P d event) : Recorded P (d.step P event) := by
  cases event with
  | restart =>
    refine ⟨fun reg hreg => ?_, h.file⟩
    cases hopen : openOrCreate P d.file with
    | error err =>
      rw [Device.step, hopen] at hreg
      cases hreg
    | ok found =>
      rw [Device.step, hopen] at hreg
      cases hreg
      exact h.file _ hopen
  | principalFor name how =>
    unfold Careful at hcareful
    unfold Device.step
    cases hprocess : d.process with
    | none => exact ⟨fun reg hreg => (by cases hprocess.symm.trans hreg), h.file⟩
    | some reg =>
      have hkeeps := h.process reg hprocess
      have hanswer := reg.principalFor_answer P d.file name how
      simp only [hprocess] at hcareful ⊢
      generalize reg.principalFor P d.file name how = out at hanswer ⊢
      cases hanswer with
      | invalid => exact ⟨fun reg' hreg => some.inj hreg ▸ hkeeps, h.file⟩
      | @known user boundary hname hknown =>
        simp only [hname, hknown] at hcareful
        refine ⟨fun reg' hreg => some.inj hreg ▸ hkeeps.cons hknown, fun found hfound => ?_⟩
        refine (h.file found hfound).cons ?_
        have hopen : openOrCreate P d.file = .ok found := hfound
        simpa only [survives, hopen, decide_eq_true_eq] using hcareful
      | @enlisted user result file' hname hnew hpersist =>
        simp only [hname, hnew] at hcareful
        have henlist := hkeeps.enlist hnew hcareful
        have hfile := keeps_persist L henlist h.file how
        rw [hpersist] at hfile
        cases result with
        | error err =>
          exact ⟨fun reg' hreg => some.inj hreg ▸ henlist.of_cons, fun found hfound => (hfile found hfound).1⟩
        | ok u => exact ⟨fun reg' hreg => some.inj hreg ▸ henlist, fun found hfound => (hfile found hfound).2 rfl⟩

theorem oneToOne_step {d : Device} (event : Event) (h : OneToOne d.handed)
    (hrecorded : Recorded P (d.step P event)) : OneToOne (d.step P event).handed := by
  cases hprocess : (d.step P event).process with
  | some reg => exact (hrecorded.process reg hprocess).oneToOne
  | none =>
    have hsame : (d.step P event).handed = d.handed := by
      cases event with
      | restart => rfl
      | principalFor name how =>
        unfold Device.step at hprocess ⊢
        cases hbefore : d.process with
        | none => rfl
        | some reg =>
          simp only [hbefore] at hprocess
          split at hprocess
          · cases hprocess
          · cases hprocess
    rw [hsame]
    exact h

/-- Every boundary is on record, and nobody shares one. -/
structure Kept (P : DocFormat Json) (d : Device) : Prop extends Recorded P d where
  handed : OneToOne d.handed

theorem kept_run (L : Readable P) {events : List Event}
    (h : Meets (Device.step P) (Careful P) .new events) : Kept P (run (Device.step P) .new events) := by
  refine Meets.invariant (fun d event hd hcareful => ?_) ⟨recorded_new, ?_⟩ h
  · have hstep := hd.toRecorded.step L hcareful
    exact ⟨hstep, oneToOne_step event hd.handed hstep⟩
  · exact fun p hp => absurd hp not_mem_nil

/-- **If a name that could not be recorded is not asked for again before the file has it, everybody keeps
their boundary for the lifetime of the file, and nobody shares it.** -/
theorem boundaries_for_ever (L : Readable P) {events : List Event}
    (h : Meets (Device.step P) (Careful P) .new events) :
    OneToOne (run (Device.step P) .new events).handed :=
  (kept_run L h).handed

end

/-! ## Alice and Bob -/

theorem jsonFormat_readable : Readable jsonFormat := by
  refine jsonFormat_lawful.mono ?_
  rintro _ ⟨boundaries, rfl⟩
  refine ⟨⟨_, rfl⟩, ?_⟩
  have hflat : ∀ entries : List (UserId × Nat),
      Json.depthFields (entries.map fun (user, boundary) => (user.name, Json.int boundary)) = 0 := by
    intro entries
    induction entries with
    | nil => rfl
    | cons e entries ih => simp [Json.depthFields, Json.depthField, Json.depth, ih]
  simp [document, Json.depth, Json.depthFields, Json.depthField, hflat, Json.recursionLimit]

def handedNames (events : List Event) : List (String × TrustBoundaryId) :=
  (run (Device.step jsonFormat) .new events).handed.map fun (user, boundary) => (user.name, boundary)

/-- Bob cannot be recorded, and asks again after a restart. -/
def twoPeople : List Event :=
  [.restart, .principalFor "alice" .completed, .principalFor "bob" .untouched, .restart,
    .principalFor "alice" .untouched, .principalFor "bob" .completed]

theorem boundaries_for_ever_twoPeople : handedNames twoPeople = [("bob", 1001), ("alice", 1000), ("alice", 1000)] ∧
    OneToOne (run (Device.step jsonFormat) .new twoPeople).handed := by
  have hmeets : Meets (Device.step jsonFormat) (Careful jsonFormat) .new twoPeople := by decide +kernel
  exact ⟨by decide +kernel, boundaries_for_ever jsonFormat_readable hmeets⟩

/-- Alice cannot be recorded, asks again, and after a restart Bob comes first. -/
def forgottenAlice : List Event :=
  [.restart, .principalFor "alice" .untouched, .principalFor "alice" .completed, .restart,
    .principalFor "bob" .completed, .principalFor "alice" .completed]

/-- **Alice's boundary becomes Bob's, and she gets another.** -/
theorem forgotten_boundary_reused :
    handedNames forgottenAlice = [("alice", 1001), ("bob", 1000), ("alice", 1000)] ∧
      ¬ OneToOne (run (Device.step jsonFormat) .new forgottenAlice).handed := by
  have hnames : handedNames forgottenAlice = [("alice", 1001), ("bob", 1000), ("alice", 1000)] := by
    decide +kernel
  refine ⟨hnames, fun h => ?_⟩
  have hbob : ("bob", 1000) ∈ handedNames forgottenAlice := by simp [hnames]
  have halice : ("alice", 1000) ∈ handedNames forgottenAlice := by simp [hnames]
  obtain ⟨p, hp, hpname⟩ := mem_map.mp hbob
  obtain ⟨q, hq, hqname⟩ := mem_map.mp halice
  have hshared : p.2 = q.2 := (Prod.mk.inj hpname).2.trans (Prod.mk.inj hqname).2.symm
  have hsame : p.1 = q.1 := (h p hp q hq).mpr hshared
  have hnames : "bob" = "alice" :=
    (Prod.mk.inj hpname).1.symm.trans ((congrArg UserId.name hsame).trans (Prod.mk.inj hqname).1)
  exact absurd hnames (by decide)

end Hyperion.Identity
