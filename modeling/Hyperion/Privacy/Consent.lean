import Hyperion.Capability.Wire
import Hyperion.Graph.JsonRecord
import Hyperion.Lib.Run
import Hyperion.Lib.Signing
import Hyperion.Recovery.Service

/-!
# The consent ledger

`ConsentLedger` of `hyperion-privacy`: signed grants in a map by id, local ones with ids from a counter
and foreign ones with the ids their issuers gave them. `values()` of the map comes in an order that is not
specified: `standingGrant` takes it as an argument.
-/

namespace Hyperion.Privacy
open Lib Capability Storage Hyperion.Graph Recovery List

inductive DataScope
  | domain (name : String)
  | object (id : NodeId)
  | capability (name : String)
deriving DecidableEq, Repr

structure ConsentGrant (K : SignatureScheme) where
  id : Nat
  subject : Nat
  scope : DataScope
  purpose : String
  expiry : Option Nat
  grantedAt : Nat
  proof : K.Signature

def ConsentGrant.isLive {K : SignatureScheme} (g : ConsentGrant K) (now : Nat) : Bool :=
  g.expiry.all fun e => decide (now ≤ e)

inductive PrivacyError
  | unauthorized
  | graph (err : GraphError)
  | recovery (err : RecoveryError)
  | signatureInvalid
deriving DecidableEq, Repr

def require (caller : Caller) (rights : RightsMask) : Except PrivacyError Unit :=
  match caller.monitor.checkRightsOkResult caller.now caller.token rights with
  | .ok () => .ok ()
  | .error _ => .error .unauthorized

def canonicalBytes (id subject : Nat) (scope : DataScope) (purpose : String) (expiry : Option Nat)
    (grantedAt : Nat) : List UInt8 :=
  toLeBytes 8 id ++ toLeBytes 8 subject ++
    (match scope with
      | .domain name => 0 :: utf8Bytes name.toList
      | .object nodeId => 1 :: toLeBytes 8 nodeId
      | .capability name => 2 :: utf8Bytes name.toList) ++
    utf8Bytes purpose.toList ++
    (match expiry with
      | some expiry => 1 :: toLeBytes 8 expiry
      | none => [0]) ++
    toLeBytes 8 grantedAt

section
variable {K : SignatureScheme}

def grantCanonicalBytes (g : ConsentGrant K) : List UInt8 :=
  canonicalBytes g.id g.subject g.scope g.purpose g.expiry g.grantedAt

def verifyGrant (g : ConsentGrant K) (key : K.VerifyingKey) : Bool :=
  K.verify (grantCanonicalBytes g) g.proof key

structure ConsentLedger (K : SignatureScheme) where
  grants : HashMap Nat (ConsentGrant K)
  nextId : Nat

namespace ConsentLedger

def new : ConsentLedger K := ⟨∅, 1⟩

variable (l : ConsentLedger K)

def request (caller : Caller) (subject : Nat) (scope : DataScope) (purpose : String) (expiry : Option Nat)
    (now : Nat) (deviceKey : K.Keystore) : Except PrivacyError (ConsentGrant K) × ConsentLedger K :=
  match require caller .write with
  | .error err => (.error err, l)
  | .ok () =>
    let id := l.nextId
    let proof := K.sign deviceKey (canonicalBytes id subject scope purpose expiry now)
    let grant := { id, subject, scope, purpose, expiry, grantedAt := now, proof }
    (.ok grant, ⟨l.grants.insert id grant, (id + 1) % 2 ^ 64⟩)

def importGrant (caller : Caller) (grant : ConsentGrant K)
    (key : K.VerifyingKey) : Except PrivacyError Unit × ConsentLedger K :=
  match require caller .write with
  | .error err => (.error err, l)
  | .ok () =>
    if !verifyGrant grant key then (.error .signatureInvalid, l)
    else (.ok (), { l with grants := l.grants.insert grant.id grant })

def revoke (caller : Caller) (grantId : Nat) : Except PrivacyError Unit × ConsentLedger K :=
  match require caller .write with
  | .error err => (.error err, l)
  | .ok () => (.ok (), { l with grants := l.grants.erase grantId })

/-- The grants in some order: what `values()` of the map may give. -/
def Values (values : List (ConsentGrant K)) : Prop :=
  values.Perm (l.grants.toList.map (·.2))

end ConsentLedger

def standingGrant (values : List (ConsentGrant K)) (subject : Nat) (scope : DataScope) (now : Nat) :
    Option (ConsentGrant K) :=
  values.find? fun g => decide (g.subject = subject) && decide (g.scope = scope) && g.isLive now

/-! ## Histories -/

inductive LedgerCall (K : SignatureScheme)
  | request (caller : Caller) (subject : Nat) (scope : DataScope) (purpose : String)
      (expiry : Option Nat) (now : Nat) (deviceKey : K.Keystore)
  | importGrant (caller : Caller) (grant : ConsentGrant K) (key : K.VerifyingKey)
  | revoke (caller : Caller) (grantId : Nat)

inductive LedgerEvent (K : SignatureScheme)
  | recorded (grant : ConsentGrant K)
  | revoked (grantId : Nat)

/-- A ledger with what has happened to it, the oldest event first. -/
structure Recorded (K : SignatureScheme) where
  ledger : ConsentLedger K
  events : List (LedgerEvent K)

namespace Recorded

def new : Recorded K := ⟨.new, []⟩

/-- A call that fails is not an event. -/
def exec (r : Recorded K) : LedgerCall K → Recorded K
  | .request caller subject scope purpose expiry now deviceKey =>
    match r.ledger.request caller subject scope purpose expiry now deviceKey with
    | (.ok grant, ledger) => ⟨ledger, r.events ++ [.recorded grant]⟩
    | (.error _, ledger) => { r with ledger := ledger }
  | .importGrant caller grant key =>
    match r.ledger.importGrant caller grant key with
    | (.ok (), ledger) => ⟨ledger, r.events ++ [.recorded grant]⟩
    | (.error _, ledger) => { r with ledger := ledger }
  | .revoke caller grantId =>
    match r.ledger.revoke caller grantId with
    | (.ok (), ledger) => ⟨ledger, r.events ++ [.revoked grantId]⟩
    | (.error _, ledger) => { r with ledger := ledger }

end Recorded

/-- The grant was requested or imported, and has not been revoked since it was first recorded. -/
def NotRevokedSince (events : List (LedgerEvent K)) (g : ConsentGrant K) : Prop :=
  ∃ before after, events = before ++ .recorded g :: after ∧ .recorded g ∉ before ∧
    .revoked g.id ∉ after

/-- A grant is recorded under an id that no other grant has had here, and not once it is revoked. -/
def FreshIds (r : Recorded K) : LedgerCall K → Prop
  | .request _ _ _ _ _ _ _ => ∀ g, .recorded g ∈ r.events → g.id ≠ r.ledger.nextId
  | .importGrant _ grant key => verifyGrant grant key = true → ∀ g, .recorded g ∈ r.events →
      g.id = grant.id → g = grant ∧ r.ledger.grants[grant.id]?.isSome
  | .revoke _ _ => True

section
variable {events : List (LedgerEvent K)} {g g' : ConsentGrant K}

theorem NotRevokedSince.mem (h : NotRevokedSince events g) : .recorded g ∈ events := by
  obtain ⟨before, after, rfl, -, -⟩ := h
  simp

theorem notRevokedSince_recorded : NotRevokedSince (events ++ [.recorded g']) g ↔
    NotRevokedSince events g ∨ g = g' ∧ .recorded g ∉ events := by
  constructor
  · rintro ⟨before, after, hevents, hfirst, hnot⟩
    rcases eq_nil_or_concat after with rfl | ⟨after, last, rfl⟩
    · obtain ⟨rfl, hlast⟩ := append_inj' hevents rfl
      cases List.cons.inj hlast |>.1
      exact .inr ⟨rfl, hfirst⟩
    · rw [concat_eq_append, ← cons_append, ← append_assoc] at hevents
      obtain ⟨rfl, -⟩ := append_inj' hevents rfl
      refine .inl ⟨before, after, rfl, hfirst, fun hmem => hnot ?_⟩
      simp [hmem]
  · rintro (⟨before, after, rfl, hfirst, hnot⟩ | ⟨rfl, hnew⟩)
    · refine ⟨before, after ++ [.recorded g'], by simp, hfirst, ?_⟩
      simpa using hnot
    · exact ⟨events, [], rfl, hnew, not_mem_nil⟩

theorem notRevokedSince_revoked {id : Nat} : NotRevokedSince (events ++ [.revoked id]) g ↔
    NotRevokedSince events g ∧ g.id ≠ id := by
  constructor
  · rintro ⟨before, after, hevents, hfirst, hnot⟩
    rcases eq_nil_or_concat after with rfl | ⟨after, last, rfl⟩
    · obtain ⟨-, hlast⟩ := append_inj' hevents rfl
      cases List.cons.inj hlast |>.1
    · rw [concat_eq_append, ← cons_append, ← append_assoc] at hevents
      obtain ⟨rfl, hlast⟩ := append_inj' hevents rfl
      obtain ⟨rfl, -⟩ := List.cons.inj hlast
      refine ⟨⟨before, after, rfl, hfirst, fun hmem => hnot ?_⟩, ?_⟩
      · simp [hmem]
      · rintro rfl
        simp at hnot
  · rintro ⟨⟨before, after, rfl, hfirst, hnot⟩, hid⟩
    refine ⟨before, after ++ [.revoked id], by simp, hfirst, ?_⟩
    simpa [hid] using hnot

end

/-- The map holds exactly the grants that have not been revoked since they were recorded, each under
its id. -/
def Faithful (r : Recorded K) : Prop :=
  ∀ id g, r.ledger.grants[id]? = some g ↔ g.id = id ∧ NotRevokedSince r.events g

theorem faithful_new : Faithful (.new : Recorded K) := by
  intro id g
  constructor
  · intro h
    simp [Recorded.new, ConsentLedger.new] at h
  · rintro ⟨-, h⟩
    exact absurd h.mem not_mem_nil

section
variable {r : Recorded K}

theorem Faithful.record (h : Faithful r) (grant : ConsentGrant K) {nextId : Nat}
    (hfree : ∀ g, .recorded g ∈ r.events → g.id = grant.id →
      g = grant ∧ r.ledger.grants[grant.id]?.isSome) :
    Faithful ⟨⟨r.ledger.grants.insert grant.id grant, nextId⟩, r.events ++ [.recorded grant]⟩ := by
  intro id g
  rw [HashMap.get_insert, notRevokedSince_recorded]
  split
  · next hid =>
    subst hid
    constructor
    · rintro ⟨⟩
      refine ⟨rfl, ?_⟩
      by_cases hmem : .recorded grant ∈ r.events
      · obtain ⟨g, hg⟩ := Option.isSome_iff_exists.mp (hfree grant hmem rfl).2
        obtain ⟨hid, hstands⟩ := (h grant.id g).mp hg
        exact .inl ((hfree g hstands.mem hid).1 ▸ hstands)
      · exact .inr ⟨rfl, hmem⟩
    · rintro ⟨hid, hstands | ⟨rfl, -⟩⟩
      · rw [(hfree g hstands.mem hid).1]
      · rfl
  · next hid =>
    rw [h]
    constructor
    · rintro ⟨hg, hstands⟩
      exact ⟨hg, .inl hstands⟩
    · rintro ⟨hg, hstands | ⟨rfl, -⟩⟩
      · exact ⟨hg, hstands⟩
      · exact absurd hg hid

theorem Faithful.revoke (h : Faithful r) (grantId : Nat) :
    Faithful ⟨{ r.ledger with grants := r.ledger.grants.erase grantId }, r.events ++ [.revoked grantId]⟩ := by
  intro id g
  rw [HashMap.get_erase, notRevokedSince_revoked]
  split
  · next hid =>
    subst hid
    constructor
    · exact fun hno => nomatch hno
    · rintro ⟨hid, -, hne⟩
      exact absurd hid hne
  · next hid =>
    rw [h]
    constructor
    · rintro ⟨hg, hstands⟩
      exact ⟨hg, hstands, fun heq => hid (heq.symm.trans hg)⟩
    · rintro ⟨hg, hstands, -⟩
      exact ⟨hg, hstands⟩

theorem Faithful.exec (h : Faithful r) {call : LedgerCall K} (hfresh : FreshIds r call) :
    Faithful (r.exec call) := by
  cases call with
  | request caller subject scope purpose expiry now deviceKey =>
    simp only [Recorded.exec, ConsentLedger.request]
    cases require caller .write with
    | error err => exact h
    | ok _ =>
      refine h.record ⟨r.ledger.nextId, subject, scope, purpose, expiry, now, _⟩ ?_
      exact fun g hg hid => absurd hid (hfresh g hg)
  | importGrant caller grant key =>
    simp only [Recorded.exec, ConsentLedger.importGrant]
    cases require caller .write with
    | error err => exact h
    | ok _ =>
      cases hverify : verifyGrant grant key with
      | false => exact h
      | true => exact h.record grant (hfresh hverify)
  | revoke caller grantId =>
    simp only [Recorded.exec, ConsentLedger.revoke]
    cases require caller .write with
    | error err => exact h
    | ok _ => exact h.revoke grantId

theorem Faithful.mem_values (h : Faithful r) {values : List (ConsentGrant K)}
    (hvalues : r.ledger.Values values) {g : ConsentGrant K} : g ∈ values ↔ NotRevokedSince r.events g := by
  rw [hvalues.mem_iff, mem_map]
  constructor
  · rintro ⟨⟨id, g⟩, hmem, rfl⟩
    exact ((h id g).mp (Std.ExtTreeMap.mem_toList_iff_getElem?_eq_some.mp hmem)).2
  · intro hstands
    exact ⟨(g.id, g), Std.ExtTreeMap.mem_toList_iff_getElem?_eq_some.mpr ((h g.id g).mpr ⟨rfl, hstands⟩), rfl⟩

end

/-- A grant for the subject and the scope, live at the time, that was recorded and has not been revoked
since it was first recorded. -/
def Consented (events : List (LedgerEvent K)) (subject : Nat) (scope : DataScope) (now : Nat)
    (g : ConsentGrant K) : Prop :=
  g.subject = subject ∧ g.scope = scope ∧ g.isLive now = true ∧ NotRevokedSince events g

/-- The ledger has a standing grant if and only if there is consent, and answers with a grant of it. -/
def Agrees (r : Recorded K) : Prop :=
  ∀ values, r.ledger.Values values → ∀ subject scope now,
    ((standingGrant values subject scope now).isSome ↔ ∃ g, Consented r.events subject scope now g) ∧
      ∀ g, standingGrant values subject scope now = some g → Consented r.events subject scope now g

theorem Faithful.agrees {r : Recorded K} (h : Faithful r) : Agrees r := by
  intro values hvalues subject scope now
  have hanswer : ∀ g, standingGrant values subject scope now = some g →
      Consented r.events subject scope now g := by
    intro g hg
    have hmatch := List.find?_some hg
    simp only [Bool.and_eq_true, decide_eq_true_eq, and_assoc] at hmatch
    exact ⟨hmatch.1, hmatch.2.1, hmatch.2.2, (h.mem_values hvalues).mp (mem_of_find?_eq_some hg)⟩
  refine ⟨⟨fun hsome => ?_, ?_⟩, hanswer⟩
  · obtain ⟨g, hg⟩ := Option.isSome_iff_exists.mp hsome
    exact ⟨g, hanswer g hg⟩
  · rintro ⟨g, hsubject, hscope, hlive, hstands⟩
    rw [standingGrant, List.find?_isSome]
    exact ⟨g, (h.mem_values hvalues).mpr hstands, by simp [hsubject, hscope, hlive]⟩

theorem faithful_run {calls : List (LedgerCall K)} (hfresh : Meets Recorded.exec FreshIds .new calls) :
    Faithful (run Recorded.exec .new calls) :=
  hfresh.invariant (fun _ _ h hfresh => h.exec hfresh) faithful_new

/-- **Consent is neither resurrected nor displaced** in histories in which a grant is recorded only
under an id that no other grant has had, and no revoked grant is recorded again. -/
theorem consent_agrees (calls : List (LedgerCall K)) (hfresh : Meets Recorded.exec FreshIds .new calls) :
    Agrees (run Recorded.exec .new calls) :=
  (faithful_run hfresh).agrees

end

/-! ## A device and a foreign one -/

def consentWriter : Caller := ⟨plainWriter.monitor, plainWriter.token, 0⟩

def noteGrant (key id subject : Nat) : ConsentGrant .tagged :=
  ⟨id, subject, .domain "notes", "summarize", none, 0,
    (key, canonicalBytes id subject (.domain "notes") "summarize" none 0)⟩

def requestNotes (subject : Nat) : LedgerCall .tagged :=
  .request consentWriter subject (.domain "notes") "summarize" none 0 (5 : Nat)

def importNotes (key id subject : Nat) : LedgerCall .tagged :=
  .importGrant consentWriter (noteGrant key id subject) key

theorem require_consentWriter : require consentWriter .write = .ok () := by decide +kernel

theorem events_requestNotes (r : Recorded .tagged) (subject : Nat) :
    (r.exec (requestNotes subject)).events = r.events ++ [.recorded (noteGrant 5 r.ledger.nextId subject)] := by
  simp only [Recorded.exec, requestNotes, ConsentLedger.request, require_consentWriter]
  rfl

theorem events_importNotes (r : Recorded .tagged) (key id subject : Nat) :
    (r.exec (importNotes key id subject)).events = r.events ++ [.recorded (noteGrant key id subject)] := by
  have hverify : verifyGrant (noteGrant key id subject) key = true := by
    simp [verifyGrant, SignatureScheme.tagged, noteGrant, grantCanonicalBytes]
  simp [Recorded.exec, importNotes, ConsentLedger.importGrant, require_consentWriter, hverify]

theorem events_revoke (r : Recorded .tagged) (grantId : Nat) :
    (r.exec (.revoke consentWriter grantId)).events = r.events ++ [.revoked grantId] := by
  simp [Recorded.exec, ConsentLedger.revoke, require_consentWriter]

/-- A request, a grant of another device under another id, and a revocation. -/
theorem consent_agrees_two_devices :
    Agrees (run Recorded.exec .new [requestNotes 1, importNotes 6 7 2, .revoke consentWriter 1]) := by
  refine consent_agrees _ ⟨fun g hg => absurd hg not_mem_nil, fun _ g hg hid => ?_, trivial, trivial⟩
  rw [events_requestNotes] at hg
  obtain rfl := LedgerEvent.recorded.inj (mem_singleton.mp hg)
  exact absurd hid (by decide)

/-- A copy of a revoked grant is imported. -/
def replay : List (LedgerCall .tagged) := [requestNotes 1, .revoke consentWriter 1, importNotes 5 1 1]

/-- A grant of another device has the id of a local one. -/
def collision : List (LedgerCall .tagged) := [requestNotes 1, importNotes 6 1 2]

/-- **A revoked grant comes back with a copy of it, and an imported grant displaces another.** -/
theorem consent_resurrected_displaced :
    ¬ Agrees (run Recorded.exec .new replay) ∧ ¬ Agrees (run Recorded.exec .new collision) := by
  constructor
  · intro h
    obtain ⟨g, -, -, -, hstands⟩ := (h _ (.refl _) 1 (.domain "notes") 0).1.mp (by decide +kernel)
    simp only [replay, run_cons, run_nil, events_requestNotes, events_importNotes, events_revoke,
      notRevokedSince_recorded, notRevokedSince_revoked] at hstands
    rcases hstands with ⟨hno | ⟨rfl, -⟩, hid⟩ | ⟨rfl, hnew⟩
    · exact absurd hno.mem not_mem_nil
    · exact hid rfl
    · exact hnew (by simp [noteGrant, Recorded.new, ConsentLedger.new])
  · intro h
    have hconsent : Consented (run Recorded.exec .new collision).events 1 (.domain "notes") 0
        (noteGrant 5 1 1) := by
      refine ⟨rfl, rfl, rfl, ?_⟩
      simp only [collision, run_cons, run_nil, events_requestNotes, events_importNotes]
      exact notRevokedSince_recorded.mpr
        (.inl (notRevokedSince_recorded.mpr (.inr ⟨rfl, not_mem_nil⟩)))
    exact absurd ((h _ (.refl _) 1 (.domain "notes") 0).1.mpr ⟨_, hconsent⟩) (by decide +kernel)

end Hyperion.Privacy
