import Hyperion.Agent.Runtime
import Hyperion.Capability.Ledger

/-!
# The supervisor of services

The supervisor mints a token for each sandboxed service that it spawns, and keeps a table of the processes it
watches. When one exits it spawns it again under a new token, unless it exited fast too many times in a row.
The time for which it sleeps in between, the cgroup of a service and its socket do not enter.
-/

namespace Hyperion.Supervision
open Lib Capability

abbrev Pid := Nat

def fastFailureThreshold : Duration := Agent.fromSecs 2

def maxConsecutiveFastFailures : Nat := 5

inductive GiveUpReason
  | crashLoop
  | respawnFailed
deriving DecidableEq, Repr

inductive SupervisorError
  | spawn (name : String)
  | wait
  | gaveUp (name : String) (restartCount : Nat) (reason : GiveUpReason)
deriving DecidableEq, Repr

structure GivenUpService where
  name : String
  restartCount : Nat
  reason : GiveUpReason
deriving DecidableEq, Repr

structure ServiceSpec where
  name : String
  rights : RightsMask
deriving DecidableEq, Repr

structure Bookkeeping where
  name : String
  startedAt : Instant
  consecutiveFastFailures : Nat
  restartCount : Nat
deriving DecidableEq, Repr

/-- A process under a token. -/
structure SpawnedBoundary where
  pid : Pid
  token : CapabilityToken
deriving DecidableEq, Repr

inductive ChildKind
  | sandboxed (spec : ServiceSpec) (boundary : SpawnedBoundary) (token : CapabilityToken)
      (origin : TrustBoundaryId)
  | plain
deriving DecidableEq, Repr

structure TrackedChild where
  book : Bookkeeping
  kind : ChildKind
deriving DecidableEq, Repr

/-- The supervisor; its monitor and the token counter are those of its process. -/
structure Supervisor where
  process : Process
  nextOrigin : Nat
  children : HashMap Pid TrackedChild
  givenUp : HashMap String GivenUpService

/-- What happens when a child has exited: the time, the process that a respawn would give, if it does not fail,
and the time at which that starts. -/
structure Turn where
  exitedAt : Instant
  spawned : Option Pid
  startedAt : Instant
deriving DecidableEq, Repr

def Bookkeeping.exit (book : Bookkeeping) (exitedAt : Instant) : Bookkeeping :=
  { book with consecutiveFastFailures :=
      if exitedAt - book.startedAt < fastFailureThreshold then book.consecutiveFastFailures + 1 else 0 }

namespace Supervisor

def new (next : TokenId) : Supervisor := ⟨⟨next, .new⟩, 1, ∅, ∅⟩

variable (s : Supervisor)

/-- Mints a token, and spawns a process under it, unless that fails. -/
def spawnSandboxedInner (spec : ServiceSpec) (origin : TrustBoundaryId) (spawned : Option Pid) :
    Option (Pid × SpawnedBoundary × CapabilityToken) × Supervisor :=
  let (token, process) := s.process.mint spec.rights origin
  let s := { s with process }
  (spawned.map fun pid => (pid, ⟨pid, token⟩, token), s)

def spawnSandboxed (spec : ServiceSpec) (spawned : Option Pid) (now : Instant) :
    Except SupervisorError Unit × Supervisor :=
  let origin := s.nextOrigin
  let s := { s with nextOrigin := (s.nextOrigin + 1) % 2 ^ 64 }
  match s.spawnSandboxedInner spec origin spawned with
  | (none, s) => (.error (.spawn spec.name), s)
  | (some (pid, boundary, token), s) =>
    (.ok (), { s with children :=
      s.children.insert pid ⟨⟨spec.name, now, 0, 0⟩, .sandboxed spec boundary token origin⟩ })

def adoptPlain (name : String) (initialPid : Pid) (now : Instant) : Supervisor :=
  { s with children := s.children.insert initialPid ⟨⟨name, now, 0, 0⟩, .plain⟩ }

/-- The process and the entry of a service that is spawned again, under a new token if it is sandboxed. -/
def respawn (kind : ChildKind) (spawned : Option Pid) : Option (Pid × ChildKind) × Supervisor :=
  match kind with
  | .plain => (spawned.map fun pid => (pid, .plain), s)
  | .sandboxed spec _ token origin =>
    match spawnSandboxedInner { s with process := s.process.revoke token } spec origin spawned with
    | (none, s) => (none, s)
    | (some (pid, boundary, token), s) => (some (pid, .sandboxed spec boundary token origin), s)

def giveUp (book : Bookkeeping) (reason : GiveUpReason) : Supervisor :=
  { s with givenUp := s.givenUp.insert book.name ⟨book.name, book.restartCount, reason⟩ }

/-- The token of a child that is dropped is revoked. -/
def release : ChildKind → Supervisor
  | .plain => s
  | .sandboxed _ _ token _ => { s with process := s.process.revoke token }

def restartExited (pid : Pid) (turn : Turn) : Except SupervisorError String × Supervisor :=
  match s.children[pid]? with
  | none => (.ok "", s)
  | some child =>
    let s := { s with children := s.children.erase pid }
    let book := child.book.exit turn.exitedAt
    if maxConsecutiveFastFailures ≤ book.consecutiveFastFailures then
      (.error (.gaveUp book.name book.restartCount .crashLoop), (s.release child.kind).giveUp book .crashLoop)
    else
      match s.respawn child.kind turn.spawned with
      | (some (newPid, kind), s) =>
        let book := { book with restartCount := (book.restartCount + 1) % 2 ^ 32, startedAt := turn.startedAt }
        (.ok book.name, { s with children := s.children.insert newPid ⟨book, kind⟩ })
      | (none, s) => (.error (.spawn book.name), s.giveUp book .respawnFailed)

/-- `waitpid` gives the process that exited, or fails. -/
def reapAndRestartOne (exited : Option Pid) (turn : Turn) : Except SupervisorError String × Supervisor :=
  match exited with
  | none => (.error .wait, s)
  | some pid => s.restartExited pid turn

def pollEach (exited : Pid → Option Turn) :
    List Pid → Supervisor → List (Except SupervisorError String) × Supervisor
  | [], s => ([], s)
  | pid :: pids, s =>
    match exited pid with
    | none => pollEach exited pids s
    | some turn =>
      let (outcome, s) := s.restartExited pid turn
      let (outcomes, s) := pollEach exited pids s
      (outcome :: outcomes, s)

def pollAndRestart (visit : Visit Pid) (exited : Pid → Option Turn) :
    List (Except SupervisorError String) × Supervisor :=
  pollEach exited (visit.order (s.children.toList.map (·.1))) s

def terminate (visit : Visit (Pid × TrackedChild)) (name : String) : Supervisor :=
  match (visit.entries s.children).find? fun (_, child) => child.book.name = name with
  | none => s
  | some (pid, child) =>
    let s := release { s with children := s.children.erase pid } child.kind
    { s with givenUp := s.givenUp.erase name }

/-- The token of a process that is killed is revoked through its handle. -/
def dropChild (p : Process) (entry : Pid × TrackedChild) : Process :=
  match entry.2.kind with
  | .plain => p
  | .sandboxed _ boundary _ _ => p.revoke boundary.token

def shutdown (visit : Visit (Pid × TrackedChild)) : Supervisor :=
  { s with process := (visit.entries s.children).foldl dropChild s.process, children := ∅ }

end Supervisor

end Hyperion.Supervision
