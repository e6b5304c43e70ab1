import Hyperion.Supervision.Supervisor
import Hyperion.Lib.Run

/-!
# Supervised authority matches what is running

A `Watch` is a supervisor with a record of what happened: the tokens that it minted, the run times of each
service, and the last thing that happened to each name.
-/

namespace Hyperion.Supervision
open Lib Capability List HashMap Supervisor Bookkeeping TrackedChild Option

/-- The last thing that happened to a name. -/
inductive Fate
  | running
  | stopped
  | givenUp
deriving DecidableEq, Repr

/-- A supervisor, the tokens that it has minted, the run times of the services since they were first spawned,
the latest first, and the fates of the names. -/
structure Watch where
  supervisor : Supervisor
  minted : List CapabilityToken
  runs : HashMap String (List Duration)
  fates : HashMap String Fate

/-- A call of the supervisor, or tokens that other monitors of the process draw. -/
inductive Event
  | spawnSandboxed (spec : ServiceSpec) (spawned : Option Pid) (now : Instant)
  | adoptPlain (name : String) (initialPid : Pid) (now : Instant)
  | reap (exited : Option Pid) (turn : Turn)
  | poll (visit : Visit Pid) (exited : Pid → Option Turn)
  | terminate (visit : Visit (Pid × TrackedChild)) (name : String)
  | shutdown (visit : Visit (Pid × TrackedChild))
  | elsewhere (drawn : Nat)

variable (s : Supervisor) (kind : ChildKind) (w : Watch)

def Supervisor.exits : Event → List (Pid × Turn)
  | .reap (some pid) turn => [(pid, turn)]
  | .poll visit exited =>
    (visit.order (s.children.toList.map (·.1))).filterMap fun pid => (exited pid).map fun turn => (pid, turn)
  | _ => []

def Tracked (children : HashMap Pid TrackedChild) (name : String) : Prop :=
  ∃ (pid : Pid) (child : TrackedChild), children[pid]? = some child ∧ child.book.name = name

def TrackedChild.token? (child : TrackedChild) : Option CapabilityToken :=
  match child.kind with
  | .sandboxed _ _ token _ => some token
  | .plain => none

/-- A token is that of a sandboxed service that is tracked. -/
def Held (children : HashMap Pid TrackedChild) (t : CapabilityToken) : Prop :=
  ∃ (pid : Pid) (child : TrackedChild), children[pid]? = some child ∧ child.token? = some t

namespace Watch

def new (next : TokenId) : Watch := ⟨.new next, [], ∅, ∅⟩

/-- The tokens minted so far, if the supervisor has gone on to `s` with a token for the child. -/
def mintedBy (w : Watch) (kind : ChildKind) (s : Supervisor) : List CapabilityToken :=
  match kind with
  | .plain => w.minted
  | .sandboxed spec _ _ origin =>
    if s.process.next = w.supervisor.process.next then w.minted
    else (w.supervisor.process.mint spec.rights origin).1 :: w.minted

def exit (w : Watch) (e : Pid × Turn) : Watch :=
  match w.supervisor.children[e.1]? with
  | none => w
  | some child =>
    let out := w.supervisor.restartExited e.1 e.2
    let name := child.book.name
    { supervisor := out.2
      minted := w.mintedBy child.kind out.2
      runs := w.runs.insert name ((e.2.exitedAt - child.book.startedAt) :: w.runs[name]?.getD [])
      fates := w.fates.insert name (if out.1.toBool then .running else .givenUp) }

def step (w : Watch) : Event → Watch
  | .spawnSandboxed spec spawned now =>
    let out := w.supervisor.spawnSandboxed spec spawned now
    let minted := (w.supervisor.process.mint spec.rights w.supervisor.nextOrigin).1 :: w.minted
    if out.1.toBool then ⟨out.2, minted, w.runs.insert spec.name [], w.fates.insert spec.name .running⟩
    else { w with supervisor := out.2, minted }
  | .adoptPlain name initialPid now =>
    ⟨w.supervisor.adoptPlain name initialPid now, w.minted, w.runs.insert name [], w.fates.insert name .running⟩
  | .reap exited turn => run exit w (w.supervisor.exits (.reap exited turn))
  | .poll visit exited => run exit w (w.supervisor.exits (.poll visit exited))
  | .terminate visit name =>
    { w with
      supervisor := w.supervisor.terminate visit name
      fates := if ((visit.entries w.supervisor.children).any fun e => e.2.book.name = name) then
          w.fates.insert name .stopped
        else w.fates }
  | .shutdown visit =>
    { w with
      supervisor := w.supervisor.shutdown visit
      fates := (visit.entries w.supervisor.children).foldl (fun m e => m.insert e.2.book.name .stopped) w.fates }
  | .elsewhere drawn =>
    { w with supervisor := { w.supervisor with
      process := ⟨w.supervisor.process.next + drawn, w.supervisor.process.monitor⟩ } }

end Watch

theorem supervisor_exit (e : Pid × Turn) :
    (w.exit e).supervisor = (w.supervisor.restartExited e.1 e.2).2 := by
  rw [Watch.exit]
  cases hchild : w.supervisor.children[e.1]? with
  | none => simp only [restartExited, hchild]
  | some child => rfl

theorem supervisor_poll (visit : Visit Pid) (exited : Pid → Option Turn) :
    (w.step (.poll visit exited)).supervisor = (w.supervisor.pollAndRestart visit exited).2 := by
  rw [Watch.step, exits, pollAndRestart]
  generalize visit.order (w.supervisor.children.toList.map (·.1)) = pids
  induction pids generalizing w with
  | nil => rfl
  | cons pid pids ih =>
    rw [pollEach, List.filterMap_cons]
    cases exited pid with
    | none => exact ih w
    | some turn =>
      simp only [Option.map_some, run_cons, ih]
      rw [supervisor_exit]

theorem supervisor_reap (exited : Option Pid) (turn : Turn) :
    (w.step (.reap exited turn)).supervisor = (w.supervisor.reapAndRestartOne exited turn).2 := by
  cases exited with
  | none => rfl
  | some pid =>
    rw [Watch.step, exits, run_cons, run_nil, supervisor_exit, reapAndRestartOne]

/-! ## What is asked of the supervisor -/

/-- The service has exited fast five times in a row. -/
def FiveFast (name : String) : Prop :=
  maxConsecutiveFastFailures ≤ ((w.runs[name]?.getD []).takeWhile (· < fastFailureThreshold)).length

/-- The live tokens that were minted are those of the sandboxed services that are tracked, one for each, and
`given_up` knows the names whose fate it is. -/
structure Accounts (w : Watch) : Prop where
  tokens : ∀ now t, t ∈ w.minted ∧ w.supervisor.process.monitor.isLive now t = true ↔ Held w.supervisor.children t
  oneEach : ∀ (pid pid' : Pid) child child' t, w.supervisor.children[pid]? = some child →
    w.supervisor.children[pid']? = some child' → child.token? = some t → child'.token? = some t → pid = pid'
  given : ∀ name : String, w.supervisor.givenUp[name]?.isSome ↔ w.fates[name]? = some .givenUp

/-- The exit of a service is handled: it is dropped exactly if it exited fast five times in a row or cannot be
spawned again, this is reported, and every other service stays as it is. -/
structure HandledAs (w : Watch) (e : Pid × Turn) (child : TrackedChild) : Prop where
  dropped : ¬ Tracked (w.exit e).supervisor.children child.book.name ↔
    FiveFast (w.exit e) child.book.name ∨ e.2.spawned = none
  reported : ¬ Tracked (w.exit e).supervisor.children child.book.name → ∃ restartCount reason,
    (w.supervisor.restartExited e.1 e.2).1 = .error (.gaveUp child.book.name restartCount reason)
  siblings : ∀ (pid : Pid) sibling, pid ≠ e.1 → w.supervisor.children[pid]? = some sibling →
    (w.exit e).supervisor.children[pid]? = some sibling

def Handled (e : Pid × Turn) : Prop :=
  ∀ child, w.supervisor.children[e.1]? = some child → HandledAs w e child

def Supervised (event : Event) : Prop :=
  Accounts (w.step event) ∧ Meets Watch.exit Handled w (w.supervisor.exits event)

/-- A new process has a number of its own. -/
def FreshPid (e : Pid × Turn) : Prop :=
  ∀ pid, e.2.spawned = some pid → pid = e.1 ∨ w.supervisor.children[pid]? = none

/-- The names in use are distinct, and so are the numbers of processes. -/
def Distinct : Event → Prop
  | .spawnSandboxed spec spawned _ => ¬ Tracked w.supervisor.children spec.name ∧
      ∀ pid, spawned = some pid → w.supervisor.children[pid]? = none
  | .adoptPlain name initialPid _ => ¬ Tracked w.supervisor.children name ∧ w.supervisor.children[initialPid]? = none
  | event => Meets Watch.exit FreshPid w (w.supervisor.exits event)

/-- A service that exits and is not given up can be spawned again. -/
def Respawns (e : Pid × Turn) : Prop :=
  ∀ child, w.supervisor.children[e.1]? = some child → e.2.spawned = none →
    maxConsecutiveFastFailures ≤ (child.book.exit e.2.exitedAt).consecutiveFastFailures

/-- No spawn fails, and no name that was given up is used again. -/
def Spawns : Event → Prop
  | .spawnSandboxed spec spawned _ => spawned ≠ none ∧ w.supervisor.givenUp[spec.name]? = none
  | .adoptPlain name _ _ => w.supervisor.givenUp[name]? = none
  | event => Meets Watch.exit Respawns w (w.supervisor.exits event)

/-! ## The table of processes -/

/-- An entry agrees with the record of its service. -/
structure Booked (runs : HashMap String (List Duration)) (fates : HashMap String Fate) (child : TrackedChild) :
    Prop where
  running : fates[child.book.name]? = some .running
  counter : child.book.consecutiveFastFailures =
    ((runs[child.book.name]?.getD []).takeWhile (· < fastFailureThreshold)).length
  handle : ∀ spec boundary token origin, child.kind = .sandboxed spec boundary token origin →
    boundary.token = token

/-- Names and tokens are those of one process each, and the entries agree with the record. -/
structure Table (children : HashMap Pid TrackedChild) (runs : HashMap String (List Duration))
    (fates : HashMap String Fate) : Prop where
  names : ∀ (pid pid' : Pid) child child', children[pid]? = some child → children[pid']? = some child' →
    child.book.name = child'.book.name → pid = pid'
  oneEach : ∀ (pid pid' : Pid) child child' t, children[pid]? = some child → children[pid']? = some child' →
    child.token? = some t → child'.token? = some t → pid = pid'
  booked : ∀ (pid : Pid) child, children[pid]? = some child → Booked runs fates child

namespace Table
variable {children : HashMap Pid TrackedChild} {runs : HashMap String (List Duration)}
  {fates : HashMap String Fate} {pid : Pid} {child : TrackedChild}

theorem empty : Table ∅ runs fates where
  names p p' c c' hc := by simp at hc
  oneEach p p' c c' t hc := by simp at hc
  booked p c hc := by simp at hc

section
variable (h : Table children runs fates)
include h

theorem erase (pid : Pid) : Table (children.erase pid) runs fates where
  names p p' c c' hc hc' := h.names p p' c c' (of_get_erase hc).2 (of_get_erase hc').2
  oneEach p p' c c' t hc hc' := h.oneEach p p' c c' t (of_get_erase hc).2 (of_get_erase hc').2
  booked p c hc := h.booked p c (of_get_erase hc).2

theorem not_tracked_erase (hchild : children[pid]? = some child) :
    ¬ Tracked (children.erase pid) child.book.name := by
  rintro ⟨pid', child', hchild', hname⟩
  obtain ⟨hne, hchild'⟩ := of_get_erase hchild'
  exact hne (h.names pid pid' child child' hchild hchild' hname.symm)

theorem held_erase (hchild : children[pid]? = some child) (t : CapabilityToken) :
    Held (children.erase pid) t ↔ Held children t ∧ child.token? ≠ some t := by
  constructor
  · rintro ⟨pid', child', hchild', ht⟩
    obtain ⟨hne, hchild'⟩ := of_get_erase hchild'
    exact ⟨⟨pid', child', hchild', ht⟩, fun ht' => hne (h.oneEach pid pid' _ _ t hchild hchild' ht' ht)⟩
  · rintro ⟨⟨pid', child', hchild', ht⟩, hnot⟩
    refine ⟨pid', child', ?_, ht⟩
    rw [HashMap.get_erase, if_neg]
    · exact hchild'
    · rintro rfl
      rw [hchild] at hchild'
      cases hchild'
      exact hnot ht

theorem other {name : String} (hname : ¬ Tracked children name)
    (l : List Duration) (fate : Fate) : Table children (runs.insert name l) (fates.insert name fate) where
  names := h.names
  oneEach := h.oneEach
  booked p c hc := by
    have hne : name ≠ c.book.name := fun heq => hname ⟨p, c, hc, heq.symm⟩
    obtain ⟨hrunning, hcounter, hhandle⟩ := h.booked p c hc
    refine ⟨?_, ?_, hhandle⟩
    · rw [HashMap.get_insert, if_neg hne]
      exact hrunning
    · rw [HashMap.get_insert, if_neg hne]
      exact hcounter

theorem insert (hname : ¬ Tracked children child.book.name)
    (htoken : ∀ t, child.token? = some t → ¬ Held children t)
    (hbooked : Booked runs fates child) : Table (children.insert pid child) runs fates := by
  refine ⟨fun p p' c c' hc hc' heq => ?_, fun p p' c c' t hc hc' ht ht' => ?_, forall_insert hbooked h.booked⟩
  · rw [HashMap.get_insert] at hc hc'
    split at hc <;> split at hc'
    · next hp hp' => exact hp.symm.trans hp'
    · cases hc
      exact absurd ⟨p', c', hc', heq.symm⟩ hname
    · cases hc'
      exact absurd ⟨p, c, hc, heq⟩ hname
    · exact h.names p p' c c' hc hc' heq
  · rw [HashMap.get_insert] at hc hc'
    split at hc <;> split at hc'
    · next hp hp' => exact hp.symm.trans hp'
    · cases hc
      exact absurd ⟨p', c', hc', ht'⟩ (htoken t ht)
    · cases hc'
      exact absurd ⟨p, c, hc, ht⟩ (htoken t ht')
    · exact h.oneEach p p' c c' t hc hc' ht ht'

end

theorem held_insert (hpid : children[pid]? = none) (t : CapabilityToken) :
    Held (children.insert pid child) t ↔ Held children t ∨ child.token? = some t := by
  constructor
  · rintro ⟨pid', child', hchild', ht⟩
    rw [HashMap.get_insert] at hchild'
    split at hchild'
    · cases hchild'
      exact .inr ht
    · exact .inl ⟨pid', child', hchild', ht⟩
  · rintro (⟨pid', child', hchild', ht⟩ | ht)
    · refine ⟨pid', child', ?_, ht⟩
      rw [HashMap.get_insert, if_neg]
      · exact hchild'
      · rintro rfl
        rw [hpid] at hchild'
        cases hchild'
    · exact ⟨pid, child, by rw [HashMap.get_insert, if_pos rfl], ht⟩

end Table

/-- The kind of a new process: for a sandboxed one a token is minted. -/
inductive Issues (p : Process) (pid : Pid) : ChildKind → Process → List CapabilityToken → Prop
  | plain : Issues p pid .plain p []
  | sandboxed (spec : ServiceSpec) (origin : TrustBoundaryId) :
      Issues p pid (.sandboxed spec ⟨pid, (p.mint spec.rights origin).1⟩ (p.mint spec.rights origin).1 origin)
        (p.mint spec.rights origin).2 [(p.mint spec.rights origin).1]

section
variable {p p' : Process} {kind : ChildKind} {new minted : List CapabilityToken} {pid : Pid}
  {children : HashMap Pid TrackedChild} {book : Bookkeeping} (h : Issues p pid kind p' new)
  (hledger : Ledger p minted (Held children))
include h

theorem Issues.next : p'.next = p.next + new.length := by
  cases h <;> rfl

include hledger

theorem Issues.ledger (hpid : children[pid]? = none) (book : Bookkeeping) :
    Ledger p' (new ++ minted) (Held (children.insert pid ⟨book, kind⟩)) := by
  cases h with
  | plain => exact hledger.congr fun t => by simp [Table.held_insert hpid, token?]
  | sandboxed spec origin =>
    exact (hledger.mint spec.rights origin).congr fun t => by simp [Table.held_insert hpid, token?, eq_comm]

theorem Issues.table {runs : HashMap String (List Duration)} {fates : HashMap String Fate}
    (htable : Table children runs fates) (hname : ¬ Tracked children book.name)
    (hrunning : fates[book.name]? = some .running) (hcounter : book.consecutiveFastFailures =
      ((runs[book.name]?.getD []).takeWhile (· < fastFailureThreshold)).length) :
    Table (children.insert pid ⟨book, kind⟩) runs fates := by
  refine htable.insert hname ?_ ⟨hrunning, hcounter, ?_⟩
  · rintro t ht hheld
    cases h with
    | plain => cases ht
    | sandboxed spec origin =>
      cases ht
      exact absurd (hledger.id_lt (hledger.minted _ hheld)) (lt_irrefl _)
  · cases h with
    | plain => exact nofun
    | sandboxed =>
      rintro _ _ _ _ ⟨⟩
      rfl

end

/-! ## What one exit does -/

def Supervisor.without (pid : Pid) : Supervisor := { s with children := s.children.erase pid }

/-- The token that a service is spawned again with. -/
def Supervisor.issued : ChildKind → List CapabilityToken
  | .plain => []
  | .sandboxed spec _ _ origin => [(s.process.mint spec.rights origin).1]

theorem Supervisor.release_children : (s.release kind).children = s.children := by
  cases kind <;> rfl

theorem Supervisor.release_givenUp : (s.release kind).givenUp = s.givenUp := by
  cases kind <;> rfl

/-- The ways the exit of a child can be handled. -/
inductive Restart (s : Supervisor) (pid : Pid) (child : TrackedChild) (turn : Turn) :
    Except SupervisorError String × Supervisor → Prop
  | crashLoop
      (hmany : maxConsecutiveFastFailures ≤ (child.book.exit turn.exitedAt).consecutiveFastFailures) :
      Restart s pid child turn (.error (.gaveUp child.book.name child.book.restartCount .crashLoop),
        ((s.without pid).release child.kind).giveUp (child.book.exit turn.exitedAt) .crashLoop)
  | failed {s' : Supervisor}
      (hfew : ¬ maxConsecutiveFastFailures ≤ (child.book.exit turn.exitedAt).consecutiveFastFailures)
      (hspawned : turn.spawned = none) :
      Restart s pid child turn (.error (.spawn child.book.name), s')
  | restarted {newPid : Pid} {kind : ChildKind} {process : Process} (book : Bookkeeping)
      (hfew : ¬ maxConsecutiveFastFailures ≤ (child.book.exit turn.exitedAt).consecutiveFastFailures)
      (hspawned : turn.spawned = some newPid) (hname : book.name = child.book.name)
      (hbook : book.consecutiveFastFailures = (child.book.exit turn.exitedAt).consecutiveFastFailures)
      (hissues : Issues ((s.without pid).release child.kind).process newPid kind process (s.issued child.kind)) :
      Restart s pid child turn (.ok child.book.name,
        { s with process, children := (s.children.erase pid).insert newPid ⟨book, kind⟩ })

theorem mint_revoke (p : Process) (t : CapabilityToken) (rights : RightsMask) (origin : TrustBoundaryId) :
    ((p.revoke t).mint rights origin).1 = (p.mint rights origin).1 ∧ (p.revoke t).next = p.next := by
  unfold Process.revoke CapabilityMonitor.capRevoke
  cases p.monitor.graph.revoke t.tokenId with
  | none => exact ⟨rfl, rfl⟩
  | some out => exact ⟨rfl, rfl⟩

theorem restartExited_restart {s : Supervisor} {pid : Pid} {child : TrackedChild}
    (hchild : s.children[pid]? = some child) (turn : Turn) :
    Restart s pid child turn (s.restartExited pid turn) := by
  unfold restartExited
  simp only [hchild]
  split
  · next hmany => exact .crashLoop hmany
  · next hfew =>
    cases hspawned : turn.spawned with
    | none =>
      cases hkind : child.kind with
      | plain => exact .failed hfew hspawned
      | sandboxed spec boundary token origin => exact .failed hfew hspawned
    | some newPid =>
      cases hkind : child.kind with
      | plain =>
        refine .restarted _ hfew hspawned rfl rfl ?_
        rw [hkind]
        exact .plain
      | sandboxed spec boundary token origin =>
        refine .restarted _ hfew hspawned rfl rfl ?_
        rw [hkind, issued, ← (mint_revoke s.process token spec.rights origin).1]
        exact .sandboxed spec origin

/-- What the supervisor knows agrees with the record. -/
structure Watched (w : Watch) : Prop where
  ledger : Ledger w.supervisor.process w.minted (Held w.supervisor.children)
  table : Table w.supervisor.children w.runs w.fates
  given : ∀ name : String, w.supervisor.givenUp[name]?.isSome ↔ w.fates[name]? = some .givenUp

theorem watched_new (next : TokenId) : Watched (.new next) where
  ledger := (Ledger.new next).congr fun t => by simp [Held, Watch.new, new]
  table := .empty
  given name := by simp [Watch.new, new]

theorem Watched.accounts {w : Watch} (h : Watched w) : Accounts w where
  tokens := h.ledger.isLive_iff
  oneEach := h.table.oneEach
  given := h.given

theorem Accounts.not_given {w : Watch} (h : Accounts w) {name : String} (hrunning : w.fates[name]? = some .running) :
    w.supervisor.givenUp[name]? = none := by
  have hgiven := h.given name
  rw [hrunning] at hgiven
  simpa using hgiven

section
variable {w : Watch} {pid : Pid} {turn : Turn} {child : TrackedChild}

theorem Watched.counter_exit (h : Watched w) (hchild : w.supervisor.children[pid]? = some child) :
    (child.book.exit turn.exitedAt).consecutiveFastFailures =
      (((w.runs.insert child.book.name ((turn.exitedAt - child.book.startedAt) ::
        w.runs[child.book.name]?.getD []))[child.book.name]?.getD []).takeWhile (· < fastFailureThreshold)).length := by
  rw [get_insert, if_pos rfl, Option.getD_some, takeWhile_cons, exit, (h.table.booked pid child hchild).counter]
  by_cases hfast : turn.exitedAt - child.book.startedAt < fastFailureThreshold
  · simp [hfast]
  · simp [hfast]

theorem Watched.fiveFast_iff (h : Watched w) (hchild : w.supervisor.children[pid]? = some child) :
    FiveFast (w.exit (pid, turn)) child.book.name ↔
      maxConsecutiveFastFailures ≤ (child.book.exit turn.exitedAt).consecutiveFastFailures := by
  rw [h.counter_exit hchild]
  simp only [FiveFast, Watch.exit, hchild]

theorem Watched.given_running (h : Watched w) {name : String} (hname : w.supervisor.givenUp[name]? = none) :
    ∀ name' : String, w.supervisor.givenUp[name']?.isSome ↔
      (w.fates.insert name .running)[name']? = some .givenUp := by
  intro name'
  rw [get_insert]
  split
  · next heq => simp [← heq, hname]
  · exact h.given name'

theorem Watched.not_given (h : Watched w) (hchild : w.supervisor.children[pid]? = some child) :
    w.supervisor.givenUp[child.book.name]? = none :=
  h.accounts.not_given (h.table.booked pid child hchild).running

theorem Watched.ledger_release (h : Watched w) (hchild : w.supervisor.children[pid]? = some child) :
    Ledger ((w.supervisor.without pid).release child.kind).process w.minted
      (Held (w.supervisor.children.erase pid)) := by
  have herase := h.table.held_erase hchild
  cases hkind : child.kind with
  | plain =>
    refine h.ledger.congr fun t => ?_
    rw [herase t, token?, hkind]
    simp
  | sandboxed spec boundary token origin =>
    have htoken : child.token? = some token := by rw [token?, hkind]
    refine (h.ledger.revoke ⟨pid, child, hchild, htoken⟩).congr fun t => ?_
    rw [herase t, htoken]
    simp [eq_comm]

theorem FreshPid.get_erase (h : FreshPid w (pid, turn)) {newPid : Pid} (hspawned : turn.spawned = some newPid) :
    (w.supervisor.children.erase pid)[newPid]? = none := by
  rw [HashMap.get_erase]
  split
  · rfl
  · next hne => exact (h newPid hspawned).resolve_left (Ne.symm hne)

theorem Watch.mintedBy_eq {kind : ChildKind} {s : Supervisor}
    (hnext : s.process.next = w.supervisor.process.next + (w.supervisor.issued kind).length) :
    w.mintedBy kind s = w.supervisor.issued kind ++ w.minted := by
  cases kind with
  | plain => rfl
  | sandboxed => exact if_neg (hnext ▸ Nat.succ_ne_self _)

theorem Supervisor.next_release (s : Supervisor) (kind : ChildKind) :
    (s.release kind).process.next = s.process.next := by
  cases kind with
  | plain => rfl
  | sandboxed spec _ token origin => exact (mint_revoke s.process token spec.rights origin).2

theorem Watched.exit (h : Watched w) (hfresh : FreshPid w (pid, turn)) (hrespawns : Respawns w (pid, turn)) :
    Watched (w.exit (pid, turn)) := by
  cases hchild : w.supervisor.children[pid]? with
  | none =>
    simp only [Watch.exit, hchild]
    exact h
  | some child =>
    have hgone := h.table.not_tracked_erase hchild
    have hother := (h.table.erase pid).other hgone
    have hledger := h.ledger_release hchild
    have hnotGiven := h.not_given hchild
    have hrestart := restartExited_restart hchild turn
    simp only [Watch.exit, hchild]
    generalize w.supervisor.restartExited pid turn = out at hrestart ⊢
    cases hrestart with
    | crashLoop hmany =>
      refine ⟨?_, ?_, fun name => ?_⟩
      · have hminted : ∀ kind, w.mintedBy kind (((w.supervisor.without pid).release kind).giveUp
            (child.book.exit turn.exitedAt) .crashLoop) = w.minted := by
          intro kind
          have hnext := (w.supervisor.without pid).next_release kind
          cases kind with
          | plain => rfl
          | sandboxed => exact if_pos hnext
        rw [hminted]
        simp only [Supervisor.giveUp, Supervisor.release_children]
        exact hledger
      · simp only [Supervisor.giveUp, Supervisor.release_children]
        exact hother _ _
      · simp only [Supervisor.giveUp, get_insert, Bookkeeping.exit, Supervisor.release_givenUp]
        split
        · simp [Except.toBool]
        · exact h.given name
    | failed hfew hspawned => exact absurd (hrespawns child hchild hspawned) hfew
    | restarted book hfew hspawned hname hbook hissues =>
      have hnext := hissues.next.trans (congrArg (· + _) (Supervisor.next_release _ _))
      refine ⟨?_, hissues.table hledger (hother _ .running) (hname ▸ hgone) ?_ ?_, h.given_running hnotGiven⟩
      · rw [Watch.mintedBy_eq hnext]
        exact hissues.ledger hledger (hfresh.get_erase hspawned) book
      · rw [get_insert, if_pos hname.symm]
        rfl
      · rw [hbook, hname]
        exact h.counter_exit hchild

theorem restarted_table {children : HashMap Pid TrackedChild} {newPid : Pid} (child' : TrackedChild)
    (hfree : (children.erase pid)[newPid]? = none) (hname : child'.book.name = child.book.name) :
    Tracked ((children.erase pid).insert newPid child') child.book.name ∧
      ∀ (p : Pid) sibling, p ≠ pid → children[p]? = some sibling →
        ((children.erase pid).insert newPid child')[p]? = some sibling := by
  refine ⟨⟨newPid, child', by rw [get_insert, if_pos rfl], hname⟩, fun p sibling hne hsibling => ?_⟩
  have herased : (children.erase pid)[p]? = some sibling := by
    rw [get_erase, if_neg (Ne.symm hne)]
    exact hsibling
  rw [get_insert, if_neg]
  · exact herased
  · rintro rfl
    rw [hfree] at herased
    cases herased

theorem Watched.restart_handled (h : Watched w) (hchild : w.supervisor.children[pid]? = some child)
    (hfresh : FreshPid w (pid, turn)) (hrespawns : Respawns w (pid, turn))
    {out : Except SupervisorError String × Supervisor} (hrestart : Restart w.supervisor pid child turn out) :
    (¬ Tracked out.2.children child.book.name ↔
        maxConsecutiveFastFailures ≤ (child.book.exit turn.exitedAt).consecutiveFastFailures ∨
          turn.spawned = none) ∧
      (¬ Tracked out.2.children child.book.name → ∃ restartCount reason,
        out.1 = .error (.gaveUp child.book.name restartCount reason)) ∧
      ∀ (p : Pid) sibling, p ≠ pid → w.supervisor.children[p]? = some sibling →
        out.2.children[p]? = some sibling := by
  have hgone := h.table.not_tracked_erase hchild
  cases hrestart with
  | crashLoop hmany =>
    simp only [giveUp, release_children]
    refine ⟨iff_of_true hgone (.inl hmany), fun _ => ⟨_, _, rfl⟩, fun p sibling hne hsibling => ?_⟩
    rw [without, get_erase, if_neg (Ne.symm hne)]
    exact hsibling
  | failed hfew hspawned => exact absurd (hrespawns child hchild hspawned) hfew
  | restarted book hfew hspawned hname =>
    obtain ⟨htracked, hsiblings⟩ := restarted_table ⟨book, _⟩ (hfresh.get_erase hspawned) hname
    refine ⟨iff_of_false (not_not_intro htracked) ?_, fun hno => absurd htracked hno, hsiblings⟩
    simp [hfew, hspawned]

theorem Watched.handled_iff (h : Watched w) (hfresh : FreshPid w (pid, turn)) :
    Respawns w (pid, turn) ↔ Handled w (pid, turn) := by
  have hexit : ∀ child, w.supervisor.children[pid]? = some child →
      (w.exit (pid, turn)).supervisor = (w.supervisor.restartExited pid turn).2 := by
    intro child hchild
    simp only [Watch.exit, hchild]
  constructor
  · intro hrespawns child hchild
    obtain ⟨hdropped, hreported, hsiblings⟩ :=
      h.restart_handled hchild hfresh hrespawns (restartExited_restart hchild turn)
    rw [← hexit child hchild] at hdropped hreported hsiblings
    exact ⟨hdropped.trans (or_congr_left (h.fiveFast_iff hchild).symm), hreported, hsiblings⟩
  · intro hhandled child hchild hspawned
    by_contra hfew
    obtain ⟨hdropped, hreported, -⟩ := hhandled child hchild
    obtain ⟨restartCount, reason, hresult⟩ := hreported (hdropped.mpr (.inr hspawned))
    have hrestart := restartExited_restart hchild turn
    generalize w.supervisor.restartExited pid turn = out at hrestart hresult
    cases hrestart with
    | crashLoop hmany => exact hfew hmany
    | failed => cases hresult
    | restarted _ _ hno => cases hspawned.symm.trans hno

theorem Watched.exits {exits : List (Pid × Turn)} (h : Watched w) (hfresh : Meets Watch.exit FreshPid w exits) :
    (Meets Watch.exit Respawns w exits ↔ Meets Watch.exit Handled w exits) ∧
      (Meets Watch.exit Respawns w exits → Watched (run Watch.exit w exits)) := by
  constructor
  · exact hfresh.congr (fun w e hw hf hr => hw.exit hf hr) (fun w e hw hf => hw.handled_iff hf) h
  · intro hrespawns
    exact Meets.invariant (fun w e (hw : Watched w) hboth => hw.exit hboth.1 hboth.2) h
      (meets_and.mpr ⟨hfresh, hrespawns⟩)

end

/-! ## What one call does -/

section
variable {w : Watch}

theorem Watched.spawned (h : Watched w) {kind : ChildKind} {process : Process} {new : List CapabilityToken} {pid : Pid}
    (hissues : Issues w.supervisor.process pid kind process new) {name : String} (now : Instant)
    (hname : ¬ Tracked w.supervisor.children name) (hpid : w.supervisor.children[pid]? = none)
    (hgiven : w.supervisor.givenUp[name]? = none) (nextOrigin : Nat) :
    Watched ⟨⟨process, nextOrigin, w.supervisor.children.insert pid ⟨⟨name, now, 0, 0⟩, kind⟩, w.supervisor.givenUp⟩,
      new ++ w.minted, w.runs.insert name [], w.fates.insert name .running⟩ := by
  refine ⟨hissues.ledger h.ledger hpid _, hissues.table h.ledger (h.table.other hname [] .running) hname ?_ ?_,
    h.given_running hgiven⟩
  · rw [get_insert, if_pos rfl]
  · rw [get_insert, if_pos rfl]
    rfl

theorem Watched.terminate (h : Watched w) (visit : Visit (Pid × TrackedChild)) (name : String) :
    Watched (w.step (.terminate visit name)) := by
  rw [Watch.step, Supervisor.terminate]
  split
  · next hfind =>
    have hany : (visit.entries w.supervisor.children).any (fun e => e.2.book.name = name) = false := by
      rw [List.find?_eq_none] at hfind
      simpa using hfind
    rw [hany]
    exact h
  · next pid child hfind =>
    have hmem := mem_of_find?_eq_some hfind
    have hname : child.book.name = name := by simpa using List.find?_some hfind
    have hchild : w.supervisor.children[pid]? = some child := (visit.mem_entries _).mp hmem
    have hany : (visit.entries w.supervisor.children).any (fun e => e.2.book.name = name) = true :=
      any_eq_true.mpr ⟨_, hmem, by simpa using hname⟩
    rw [hany]
    subst hname
    dsimp only
    have hgone := h.table.not_tracked_erase hchild
    refine ⟨?_, ?_, fun name' => ?_⟩
    · simp only [release_children]
      exact h.ledger_release hchild
    · simp only [release_children]
      have hother := (h.table.erase pid).other hgone (w.runs[child.book.name]?.getD []) .stopped
      refine ⟨hother.names, hother.oneEach, fun p c hc => ?_⟩
      have hbooked := h.table.booked p c (of_get_erase hc).2
      exact ⟨(hother.booked p c hc).running, hbooked.counter, hbooked.handle⟩
    · simp only [release_givenUp, get_erase, if_true, get_insert]
      split
      · simp
      · exact h.given name'

theorem get_foldl_insert_stopped (entries : List (Pid × TrackedChild)) (fates : HashMap String Fate)
    (name : String) : (entries.foldl (fun m e => m.insert e.2.book.name .stopped) fates)[name]? =
      if ∃ e ∈ entries, e.2.book.name = name then some .stopped else fates[name]? := by
  induction entries generalizing fates with
  | nil => simp
  | cons e entries ih =>
    rw [foldl_cons, ih, get_insert]
    by_cases hrest : ∃ e ∈ entries, e.2.book.name = name
    · simp [hrest]
    · by_cases hname : e.2.book.name = name
      · simp [hname]
      · simp [hrest, hname]

theorem foldl_dropChild {entries : List (Pid × TrackedChild)}
    (hhandle : ∀ e ∈ entries, ∀ spec boundary token origin, e.2.kind = .sandboxed spec boundary token origin →
      boundary.token = token) (p : Process) :
    entries.foldl dropChild p = (entries.filterMap (·.2.token?)).foldl Process.revoke p := by
  induction entries generalizing p with
  | nil => rfl
  | cons e entries ih =>
    have ih := ih fun e he => hhandle e (mem_cons_of_mem _ he)
    have hhead := hhandle e mem_cons_self
    cases hkind : e.2.kind with
    | plain =>
      rw [foldl_cons, filterMap_cons]
      simp only [dropChild, token?, hkind]
      exact ih p
    | sandboxed spec boundary token origin =>
      rw [foldl_cons, filterMap_cons]
      simp only [dropChild, token?, hkind, foldl_cons, hhead _ _ _ _ hkind]
      exact ih _

theorem Watched.shutdown (h : Watched w) (visit : Visit (Pid × TrackedChild)) :
    Watched (w.step (.shutdown visit)) := by
  have hmem : ∀ e, e ∈ visit.entries w.supervisor.children ↔ w.supervisor.children[e.1]? = some e.2 :=
    fun e => visit.mem_entries _
  have hnodup : (visit.entries w.supervisor.children).Nodup :=
    (visit.perm _).nodup_iff.mpr (toList_nodup _)
  have htokens : ((visit.entries w.supervisor.children).filterMap (·.2.token?)).Nodup := by
    refine pairwise_filterMap.mpr (hnodup.pairwise_of_forall_ne fun e he e' he' hne t ht t' ht' heq => hne ?_)
    subst heq
    have hpid := h.table.oneEach e.1 e'.1 e.2 e'.2 t ((hmem e).mp he) ((hmem e').mp he') ht ht'
    refine Prod.ext hpid (some.inj ?_)
    rw [← (hmem e).mp he, ← (hmem e').mp he', hpid]
  have hheld : ∀ t, t ∈ (visit.entries w.supervisor.children).filterMap (·.2.token?) ↔
      Held w.supervisor.children t := by
    intro t
    rw [mem_filterMap]
    constructor
    · rintro ⟨e, he, ht⟩
      exact ⟨e.1, e.2, (hmem e).mp he, ht⟩
    · rintro ⟨pid, child, hchild, ht⟩
      exact ⟨(pid, child), (hmem _).mpr hchild, ht⟩
  refine ⟨?_, ?_, fun name => ?_⟩
  · have hledger := Ledger.revokeAll htokens h.ledger fun t ht => (hheld t).mp ht
    rw [← foldl_dropChild fun e he => (h.table.booked e.1 e.2 ((hmem e).mp he)).handle] at hledger
    refine hledger.congr fun t => ?_
    rw [hheld t]
    simp [Held, Watch.step, Supervisor.shutdown]
  · exact .empty
  · simp only [Watch.step, Supervisor.shutdown, get_foldl_insert_stopped]
    split
    · next hname =>
      obtain ⟨e, he, rfl⟩ := hname
      simp [h.not_given ((hmem e).mp he)]
    · exact h.given name

theorem Watched.step_iff (h : Watched w) {event : Event} (hdistinct : Distinct w event) :
    (Spawns w event ↔ Supervised w event) ∧ (Spawns w event → Watched (w.step event)) := by
  cases event with
  | spawnSandboxed spec spawned now =>
    cases hspawned : spawned with
    | none =>
      subst hspawned
      have hlive := h.ledger.mint spec.rights w.supervisor.nextOrigin
      refine ⟨iff_of_false (fun hno => hno.1 rfl) fun hsupervised => ?_, fun hno => absurd rfl hno.1⟩
      -- the token of the process that was not spawned is live, and nobody's
      have hheld := (hsupervised.1.tokens 0 _).mp ((hlive.isLive_iff 0 _).mpr (.inr rfl))
      exact absurd (h.ledger.id_lt (h.ledger.minted _ hheld)) (lt_irrefl _)
    | some pid =>
      subst hspawned
      have hstep (hspawns : Spawns w (.spawnSandboxed spec (some pid) now)) :=
        h.spawned (.sandboxed spec w.supervisor.nextOrigin) now hdistinct.1 (hdistinct.2 pid rfl) hspawns.2
          ((w.supervisor.nextOrigin + 1) % 2 ^ 64)
      refine ⟨⟨fun hspawns => ⟨(hstep hspawns).accounts, trivial⟩, fun hsupervised => ?_⟩, hstep⟩
      exact ⟨Option.some_ne_none pid, hsupervised.1.not_given ((get_insert ..).trans (if_pos rfl))⟩
  | adoptPlain name initialPid now =>
    have hstep (hspawns : Spawns w (.adoptPlain name initialPid now)) :=
      h.spawned .plain now hdistinct.1 hdistinct.2 hspawns w.supervisor.nextOrigin
    refine ⟨⟨fun hspawns => ⟨(hstep hspawns).accounts, trivial⟩, fun hsupervised => ?_⟩, hstep⟩
    exact hsupervised.1.not_given ((get_insert ..).trans (if_pos rfl))
  | reap | poll =>
    obtain ⟨hiff, hwatched⟩ := h.exits hdistinct
    exact ⟨⟨fun hspawns => ⟨(hwatched hspawns).accounts, hiff.mp hspawns⟩, fun hs => hiff.mpr hs.2⟩, hwatched⟩
  | terminate visit name =>
    have hstep := h.terminate visit name
    exact ⟨iff_of_true trivial ⟨hstep.accounts, trivial⟩, fun _ => hstep⟩
  | shutdown visit =>
    have hstep := h.shutdown visit
    exact ⟨iff_of_true trivial ⟨hstep.accounts, trivial⟩, fun _ => hstep⟩
  | elsewhere drawn =>
    have hstep : Watched (w.step (.elsewhere drawn)) := ⟨h.ledger.elsewhere drawn, h.table, h.given⟩
    exact ⟨iff_of_true trivial ⟨hstep.accounts, trivial⟩, fun _ => hstep⟩

theorem Watched.meets_iff (h : Watched w) {events : List Event}
    (hdistinct : Meets Watch.step Distinct w events) :
    Meets Watch.step Supervised w events ↔ Meets Watch.step Spawns w events :=
  (hdistinct.congr (fun _ _ (hw : Watched _) hd hs => (hw.step_iff hd).2 hs) (fun _ _ hw hd => (hw.step_iff hd).1)
    h).symm

/-- **The live tokens are those of the tracked services, services are dropped and reported as they should be, and
`given_up` is right after every call, exactly if no spawn fails and no name that was given up is used again.** -/
theorem supervised_iff_spawns {next : TokenId} {events : List Event}
    (h : Meets Watch.step Distinct (.new next) events) :
    Meets Watch.step Supervised (.new next) events ↔ Meets Watch.step Spawns (.new next) events :=
  (watched_new next).meets_iff h

end

/-! ## A clock and a shell -/

instance (children : HashMap Pid TrackedChild) (name : String) : Decidable (Tracked children name) :=
  decidable_of_iff (∃ e ∈ children.toList, e.2.book.name = name) <| by
    simp [Tracked, Std.ExtTreeMap.mem_toList_iff_getElem?_eq_some]

instance (w : Watch) (e : Pid × Turn) : Decidable (FreshPid w e) :=
  inferInstanceAs (Decidable (∀ pid ∈ e.2.spawned, pid = e.1 ∨ w.supervisor.children[pid]? = none))

instance (w : Watch) (e : Pid × Turn) : Decidable (Respawns w e) :=
  inferInstanceAs (Decidable (∀ child ∈ w.supervisor.children[e.1]?, e.2.spawned = none →
    maxConsecutiveFastFailures ≤ (child.book.exit e.2.exitedAt).consecutiveFastFailures))

instance (w : Watch) (event : Event) : Decidable (Distinct w event) := by
  unfold Distinct
  split
  · next spec spawned now =>
    have : Decidable (∀ pid, spawned = some pid → w.supervisor.children[pid]? = none) :=
      inferInstanceAs (Decidable (∀ pid ∈ spawned, w.supervisor.children[pid]? = none))
    infer_instance
  · infer_instance
  · infer_instance

instance (w : Watch) (event : Event) : Decidable (Spawns w event) := by
  unfold Spawns
  split <;> infer_instance

def clock : ServiceSpec := ⟨"clock", .read⟩

def exits (pid : Pid) (spawned : Option Pid) : Event := .reap (some pid) ⟨1, spawned, 0⟩

def crashLoop : List Event :=
  [.adoptPlain "shell" 5 0, exits 5 (some 6), exits 6 (some 7), exits 7 (some 5), exits 5 (some 6), exits 6 none]

theorem supervised_iff_spawns_crashLoop :
    Meets Watch.step Supervised (.new 0)
      (.spawnSandboxed clock (some 10) 0 :: exits 10 (some 11) :: crashLoop ++ [.terminate .inOrder "clock"]) := by
  have hdistinct : Meets Watch.step Distinct (.new 0)
      (.spawnSandboxed clock (some 10) 0 :: exits 10 (some 11) :: crashLoop ++ [.terminate .inOrder "clock"]) := by
    decide +kernel
  exact (supervised_iff_spawns hdistinct).mpr (by decide +kernel)

/-- Names and numbers are distinct, and yet something is not as it should be. -/
def Unsupervised (events : List Event) : Prop :=
  Meets Watch.step Distinct (.new 0) events ∧ ¬ Meets Watch.step Supervised (.new 0) events

theorem unsupervised_of_not_spawns {events : List Event} (hdistinct : Meets Watch.step Distinct (.new 0) events)
    (hnot : ¬ Meets Watch.step Spawns (.new 0) events) : Unsupervised events :=
  ⟨hdistinct, fun h => hnot (((watched_new 0).meets_iff hdistinct).mp h)⟩

/-- **A service that cannot be spawned, one that cannot be spawned again, and one that is started again after it
was given up.** -/
theorem failed_spawns_unsupervised :
    Unsupervised [.spawnSandboxed clock none 0] ∧
      Unsupervised [.spawnSandboxed clock (some 10) 0, exits 10 none] ∧
      Unsupervised (crashLoop ++ [.adoptPlain "shell" 8 0]) := by
  refine ⟨?_, ?_, ?_⟩
  all_goals exact unsupervised_of_not_spawns (by decide +kernel) (by decide +kernel)

end Hyperion.Supervision
