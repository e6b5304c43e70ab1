import Hyperion.Console.PeerTrust
import Hyperion.Lib.Run

/-!
# Who answers for a known peer

A device talks to its peers, restarts, and forgets peers. The holders of keys sign texts in answer to requests;
what else arrives is up to an adversary who cannot forge signatures.
-/

namespace Hyperion.Console
open Lib List HashMap Option PeerTrustStore

section
variable (C : Client) {store : PeerTrustStore} {accepted : List (String × C.scheme.VerifyingKey)}

/-- The store in memory and its file, the number of exchanges so far, and the keys with which peers were
accepted since they were last forgotten. -/
structure Device where
  process : Option PeerTrustStore
  file : Option (List UInt8)
  exchanges : Nat
  accepted : List (String × C.scheme.VerifyingKey)

inductive Event
  | exchange (e : Exchange)
  | forget (peerId : String) (how : WriteEnd)
  | restart

namespace Device
variable {C}

def new : Device C := ⟨none, none, 0, []⟩

/-- An exchange that shows a text under a claimed key accepts the peer with the key. -/
def accept (d : Device C) (e : Exchange) : Except Failure String → List (String × C.scheme.VerifyingKey)
  | .error _ => d.accepted
  | .ok _ =>
    match (C.claimedHex e).bind C.keyOf with
    | some key => (e.peerId, key) :: d.accepted
    | none => d.accepted

def step (d : Device C) : Event → Device C
  | .restart => { d with process := (PeerTrustStore.openOrCreate C.files d.file).toOption }
  | .exchange e =>
    match d.process with
    | none => d
    | some store =>
      let out := C.exchange e store d.file
      { process := if out.1 = .error .panicked then none else some out.2.1
        file := out.2.2
        exchanges := d.exchanges + 1
        accepted := d.accept e out.1 }
  | .forget peerId how =>
    match d.process with
    | none => d
    | some store =>
      match store.forget C.files d.file peerId how with
      | (.ok _, store, file) =>
        { d with process := some store, file, accepted := d.accepted.filter (·.1 ≠ peerId) }
      | (.error _, store, file) => { d with process := some store, file }

end Device

variable {C} (signed : C.scheme.VerifyingKey → Nat → List UInt8 → Prop)

/-- A text that is shown for an accepted peer was signed in answer to this request. -/
def Authentic (d : Device C) : Event → Prop
  | .exchange e =>
    match d.process with
    | none => True
    | some store =>
      match (C.exchange e store d.file).1 with
      | .error _ => True
      | .ok text => ∀ p ∈ d.accepted, p.1 = e.peerId → signed p.2 d.exchanges (utf8Bytes text.toList)
  | _ => True

/-- The reply is no text that the holder of the claimed key signed in answer to other requests only. -/
def Fresh (d : Device C) (e : Exchange) : Prop :=
  match C.replyText e, (C.claimedHex e).bind C.keyOf with
  | some text, some key =>
    (∃ n, signed key n (utf8Bytes text.toList)) → signed key d.exchanges (utf8Bytes text.toList)
  | _, _ => True

/-- A start from the file would fail, or know the peer under the key. -/
def Saved (C : Client) (file : Option (List UInt8)) (peerId keyHex : String) : Prop :=
  match PeerTrustStore.openOrCreate C.files file with
  | .ok found => found.trusted[peerId]? = some keyHex
  | .error _ => True

/-- A known peer of which a text is shown claims a key, and is known to the file too, and the reply is not an
old one; and a peer is forgotten only if that can be saved. -/
def Guarded (d : Device C) : Event → Prop
  | .restart => True
  | .exchange e =>
    match d.process with
    | none => True
    | some store =>
      match store.trusted[e.peerId]?, (C.exchange e store d.file).1 with
      | some keyHex, .ok _ => C.claimedHex e ≠ none ∧ Saved C d.file e.peerId keyHex ∧ Fresh signed d e
      | _, _ => True
  | .forget peerId how =>
    match d.process with
    | none => True
    | some store => store.trusted[peerId]? ≠ none → how = .completed

section
variable [∀ key n text, Decidable (signed key n text)]

instance instDecidableAuthentic (d : Device C) (event : Event) : Decidable (Authentic signed d event) := by
  unfold Authentic
  split
  · split
    · exact inferInstance
    · split
      · exact inferInstance
      · exact List.decidableBAll _ _
  · exact inferInstance

variable [∀ key text, Decidable (∃ n, signed key n text)]

instance (d : Device C) (e : Exchange) : Decidable (Fresh signed d e) := by
  unfold Fresh
  split <;> infer_instance

instance (file : Option (List UInt8)) (peerId keyHex : String) : Decidable (Saved C file peerId keyHex) := by
  unfold Saved
  split <;> infer_instance

instance instDecidableGuarded (d : Device C) (event : Event) : Decidable (Guarded signed d event) := by
  unfold Guarded
  split
  · infer_instance
  · split
    · infer_instance
    · split <;> infer_instance
  · split <;> infer_instance

end

/-! ## The store knows whom it accepted -/

/-- The store has the keys with which peers were accepted. -/
def PeerTrustStore.Knows (C : Client) (store : PeerTrustStore)
    (accepted : List (String × C.scheme.VerifyingKey)) : Prop :=
  ∀ p ∈ accepted, ∃ keyHex, store.trusted[p.1]? = some keyHex ∧ C.keyOf keyHex = some p.2

/-- Memory and file know whom the device accepted. -/
structure Remembered (d : Device C) : Prop where
  process : ∀ store, d.process = some store → store.Knows C d.accepted
  file : ∀ store, PeerTrustStore.openOrCreate C.files d.file = .ok store → store.Knows C d.accepted

abbrev Client.Readable (C : Client) : Prop := C.files.Lawful fun j => ∃ trusted, j = trustDocument trusted

theorem loadTrusted_entries (entries : List (String × String)) (trusted : HashMap String String) :
    loadTrusted (entries.map fun (peerId, keyHex) => (peerId, .str keyHex)) trusted =
      some (entries.foldl (fun m e => m.insert e.1 e.2) trusted) := by
  induction entries generalizing trusted with
  | nil => rfl
  | cons e entries ih =>
    rw [map_cons, loadTrusted, foldl_cons]
    exact ih _

theorem openOrCreate_trustDocument {file : Option (List UInt8)} (store : PeerTrustStore)
    (hfile : C.files.contents file = .document (trustDocument store.trusted)) :
    openOrCreate C.files file = .ok store := by
  rw [openOrCreate, hfile, trustDocument]
  have hload := loadTrusted_entries store.trusted.toList ∅
  rw [← HashMap.ofEntries, ofEntries_toList] at hload
  simp only [hload]

theorem openOrCreate_save (L : C.Readable) (store : PeerTrustStore) (file : Option (List UInt8))
    (how : WriteEnd) (found : PeerTrustStore)
    (h : openOrCreate C.files (store.save C.files file how).2 = .ok found) : found = store ∨
      (store.save C.files file how).1 ≠ .ok () ∧ openOrCreate C.files file = .ok found := by
  have hwrite := L.contents_write ⟨store.trusted, rfl⟩ file how
  unfold save at h ⊢
  generalize writeFile file (C.files.print (trustDocument store.trusted)) how = out at hwrite h ⊢
  obtain ⟨ok, file'⟩ := out
  rcases hwrite with hnew | ⟨hfail, hunreadable | hsame⟩
  · left
    have hopen := openOrCreate_trustDocument store hnew
    cases ok with
    | true => exact Except.ok.inj (h.symm.trans hopen)
    | false => exact Except.ok.inj (h.symm.trans hopen)
  · dsimp only at hfail hunreadable
    subst hfail
    dsimp only at h
    rw [openOrCreate, hunreadable] at h
    cases h
  · dsimp only at hfail hsame
    subst hfail
    dsimp only at h ⊢
    right
    rw [openOrCreate, hsame, ← openOrCreate] at h
    exact ⟨(fun hok => by cases hok), h⟩

variable {d : Device C} {peerId : String} {event : Event}

theorem PeerTrustStore.Knows.record
    (h : store.Knows C accepted) (hnew : store.trusted[peerId]? = none) (keyHex : String) :
    (store.record peerId keyHex).Knows C accepted := by
  intro p hp
  obtain ⟨hex, hknown, hkey⟩ := h p hp
  have hne : peerId ≠ p.1 := by
    rintro rfl
    cases hnew.symm.trans hknown
  refine ⟨hex, ?_, hkey⟩
  rw [PeerTrustStore.record, get_insert, if_neg hne]
  exact hknown

theorem PeerTrustStore.Knows.cons (h : store.Knows C accepted) {peerId keyHex : String}
    {key : C.scheme.VerifyingKey} (hknown : store.trusted[peerId]? = some keyHex)
    (hkey : C.keyOf keyHex = some key) : store.Knows C ((peerId, key) :: accepted) := by
  intro p hp
  rcases mem_cons.mp hp with rfl | hp
  · exact ⟨keyHex, hknown, hkey⟩
  · exact h p hp

theorem PeerTrustStore.Knows.erase (h : store.Knows C accepted) (peerId : String) :
    PeerTrustStore.Knows C ⟨store.trusted.erase peerId⟩ (accepted.filter (·.1 ≠ peerId)) := by
  intro p hp
  obtain ⟨hp, hne⟩ := mem_filter.mp hp
  obtain ⟨hex, hknown, hkey⟩ := h p hp
  refine ⟨hex, ?_, hkey⟩
  rw [get_erase, if_neg (Ne.symm (of_decide_eq_true hne))]
  exact hknown

theorem Remembered.exchange (L : C.Readable) (h : Remembered d) {e : Exchange}
    (hprocess : d.process = some store) (hguard : Guarded signed d (.exchange e)) :
    (C.exchange e store d.file).2.1.Knows C (d.accept e (C.exchange e store d.file).1) ∧
      ∀ found, openOrCreate C.files (C.exchange e store d.file).2.2 = .ok found →
        found.Knows C (d.accept e (C.exchange e store d.file).1) := by
  have hknows := h.process store hprocess
  have hending := C.exchange_ending e store d.file
  simp only [Guarded, hprocess] at hguard
  generalize C.exchange e store d.file = out at hending hguard ⊢
  cases hending with
  | failed failure => exact ⟨hknows, h.file⟩
  | unclaimed hclaim =>
    simp only [Device.accept, hclaim, bind_none]
    exact ⟨hknows, h.file⟩
  | @unsaved claimed failure err file' hclaim hnew hsave =>
    have hrecord := hknows.record hnew claimed
    refine ⟨hrecord, fun found hfound => ?_⟩
    have hopen := openOrCreate_save L (store.record e.peerId claimed) d.file e.how found
    rw [hsave] at hopen
    rcases hopen hfound with rfl | ⟨-, hbefore⟩
    · exact hrecord
    · exact h.file found hbefore
  | @firstTrust claimed text key file' hclaim hkey hnew hsave =>
    have hself : (store.record e.peerId claimed).trusted[e.peerId]? = some claimed := by
      rw [record, get_insert, if_pos rfl]
    have hrecord := (hknows.record hnew claimed).cons hself hkey
    simp only [Device.accept, hclaim, bind_some, hkey]
    refine ⟨hrecord, fun found hfound => ?_⟩
    have hopen := openOrCreate_save L (store.record e.peerId claimed) d.file e.how found
    rw [hsave] at hopen
    rcases hopen hfound with rfl | ⟨hfail, -⟩
    · exact hrecord
    · exact absurd rfl hfail
  | @trusted claimed text key signature hclaim hkey hreply hverify hknown =>
    simp only [Device.accept, hclaim, bind_some, hkey]
    simp only [hknown] at hguard
    refine ⟨hknows.cons hknown hkey, fun found hfound => ?_⟩
    have hsaved := hguard.2.1
    simp only [Saved, hfound] at hsaved
    exact (h.file found hfound).cons hsaved hkey

theorem Remembered.forget (L : C.Readable) (h : Remembered d) {how : WriteEnd}
    (hguard : Guarded signed d (.forget peerId how)) : Remembered (d.step (.forget peerId how)) := by
  cases hprocess : d.process with
  | none =>
    simp only [Device.step, hprocess]
    exact h
  | some store =>
    have hknows := (h.process store hprocess).erase peerId
    cases hknown : store.trusted[peerId]? with
    | none =>
      simp only [Device.step, hprocess, PeerTrustStore.forget, hknown, isSome_none]
      refine ⟨fun store' hstore => some.inj hstore ▸ hknows, fun found hfound p hp => ?_⟩
      exact h.file found hfound p (mem_filter.mp hp).1
    | some keyHex =>
      have hhow : how = .completed := by
        simp only [Guarded, hprocess] at hguard
        exact hguard (by simp [hknown])
      subst hhow
      simp only [Device.step, hprocess, PeerTrustStore.forget, hknown, isSome_some, if_true,
        PeerTrustStore.save, writeFile]
      refine ⟨fun store' hstore => some.inj hstore ▸ hknows, fun found hfound => ?_⟩
      have hopen := openOrCreate_trustDocument ⟨store.trusted.erase peerId⟩ (L.contents_print ⟨_, rfl⟩)
      cases hfound.symm.trans hopen
      exact hknows

theorem Remembered.step (L : C.Readable) (h : Remembered d)
    (hguard : Guarded signed d event) : Remembered (d.step event) := by
  cases event with
  | restart =>
    refine ⟨fun store hstore => ?_, h.file⟩
    cases hopen : openOrCreate C.files d.file with
    | error err => simp [Device.step, hopen, Except.toOption] at hstore
    | ok found =>
      simp only [Device.step, hopen, Except.toOption, some.injEq] at hstore
      exact hstore ▸ h.file found hopen
  | forget peerId how => exact h.forget signed L hguard
  | exchange e =>
    cases hprocess : d.process with
    | none =>
      simp only [Device.step, hprocess]
      exact h
    | some store =>
      obtain ⟨hmemory, hfile⟩ := h.exchange signed L hprocess hguard
      simp only [Device.step, hprocess]
      refine ⟨fun store' hstore => ?_, hfile⟩
      split at hstore
      · cases hstore
      · exact some.inj hstore ▸ hmemory

theorem Remembered.authentic (hunforgeable : ∀ key, C.scheme.Unforgeable key fun text => ∃ n, signed key n text)
    (h : Remembered d) (hguard : Guarded signed d event) :
    Authentic signed d event := by
  cases event with
  | restart => trivial
  | forget peerId how => trivial
  | exchange e =>
    unfold Authentic
    cases hprocess : d.process with
    | none => trivial
    | some store =>
      simp only [Guarded, hprocess] at hguard
      have hknows := h.process store hprocess
      have hending := C.exchange_ending e store d.file
      dsimp only
      generalize C.exchange e store d.file = out at hending hguard ⊢
      cases hending with
      | failed failure => trivial
      | unsaved => trivial
      | unclaimed hclaim =>
        intro p hp hpeer
        obtain ⟨keyHex, hknown, -⟩ := hknows p hp
        rw [hpeer] at hknown
        simp only [hknown] at hguard
        exact absurd hclaim hguard.1
      | firstTrust hclaim hkey hnew hsave =>
        intro p hp hpeer
        obtain ⟨keyHex, hknown, -⟩ := hknows p hp
        cases hnew.symm.trans (hpeer ▸ hknown)
      | @trusted claimed text key signature hclaim hkey hreply hverify hknown =>
        intro p hp hpeer
        obtain ⟨keyHex, hhex, hpkey⟩ := hknows p hp
        rw [hpeer, hknown] at hhex
        cases hhex
        rw [hkey] at hpkey
        cases hpkey
        simp only [hknown] at hguard
        have hfresh := hguard.2.2
        simp only [Fresh, hreply, hclaim, bind_some, hkey] at hfresh
        exact hfresh (hunforgeable _ _ _ hverify)

/-- **If known peers claim a key, no old replies come back, a peer whose key could not be saved is not asked
again before it is, and no forgetting fails, then what is shown for a peer that was accepted with a key was
signed by the holder of the key in answer to that request.** -/
theorem known_peer_answers (L : C.Readable)
    (hunforgeable : ∀ key, C.scheme.Unforgeable key fun text => ∃ n, signed key n text) {events : List Event}
    (h : Meets Device.step (Guarded signed) .new events) : Meets Device.step (Authentic signed) .new events := by
  refine Meets.of_invariant (fun d event _ (hd : Remembered d) hguard => hd.step signed L hguard)
    (fun d event _ hd hguard => hd.authentic signed hunforgeable hguard) ?_ h
  exact ⟨fun store hstore => (by cases hstore), fun store _ p hp => absurd hp not_mem_nil⟩

end

/-! ## Four ways around the store -/

/-- What two key holders signed: the key, the exchange that was answered, and the text. -/
def sampleLedger : List (List UInt8 × Nat × List UInt8) :=
  [([0xaa], 0, utf8Bytes "hello".toList), ([0xaa], 1, utf8Bytes "hello".toList),
    ([0xbb], 1, utf8Bytes "evil".toList), ([0xbb], 2, utf8Bytes "evil".toList)]

def sampleSigned (key : List UInt8) (n : Nat) (text : List UInt8) : Prop := (key, n, text) ∈ sampleLedger

instance decidableSigned (key : List UInt8) (n : Nat) (text : List UInt8) : Decidable (sampleSigned key n text) :=
  inferInstanceAs (Decidable (_ ∈ sampleLedger))

instance decidableEverSigned (key text : List UInt8) : Decidable (∃ n, sampleSigned key n text) :=
  decidable_of_iff (∃ e ∈ sampleLedger, e.1 = key ∧ e.2.2 = text) <| by
    constructor
    · rintro ⟨⟨_, n, _⟩, hmem, rfl, rfl⟩
      exact ⟨n, hmem⟩
    · rintro ⟨n, hmem⟩
      exact ⟨(key, n, text), hmem, rfl, rfl⟩

abbrev sampleScheme : SignatureScheme where
  Keystore := Unit
  Signature := Unit
  VerifyingKey := List UInt8
  sign _ _ := ()
  verify text _ key := decide (∃ n, sampleSigned key n text)

theorem unforgeable_sample (key : List UInt8) :
    sampleScheme.Unforgeable key fun text => ∃ n, sampleSigned key n text :=
  fun _ _ hverify => of_decide_eq_true hverify

abbrev sampleClient : Client where
  scheme := sampleScheme
  fromStr body := (Json.parse body.toList).elim (.error "not JSON") .ok
  readKey bs := .ok bs
  readSignature _ := .ok ()
  files := jsonFormat
  errorText _ := "the store"
  debugText body := body

theorem sampleClient_readable : sampleClient.Readable := by
  refine jsonFormat_lawful.mono ?_
  rintro _ ⟨trusted, rfl⟩
  refine ⟨⟨_, rfl⟩, ?_⟩
  have hflat : ∀ entries : List (String × String),
      Json.depthFields (entries.map fun (peerId, keyHex) => (peerId, Json.str keyHex)) = 0 := by
    intro entries
    induction entries with
    | nil => rfl
    | cons e entries ih => simp [Json.depthFields, Json.depthField, Json.depth, ih]
  simp [trustDocument, Json.depth, hflat, Json.recursionLimit]

def body (j : Json) : Except String String := .ok (String.ofList j.render)

def signedCall (keyHex text : String) (how : WriteEnd) : Event :=
  .exchange ⟨.callTool, "peer", 80, body (.obj [("result", .obj [("publicKey", .str keyHex)])]),
    body (.obj [("result", .obj [("content", .arr [.obj [("text", .str text)]]), ("signature", .str "00")])]), how⟩

def keylessCall (text : String) : Event :=
  .exchange ⟨.callTool, "peer", 80, body (.obj [("result", .obj [])]),
    body (.obj [("result", .obj [("content", .arr [.obj [("text", .str text)]])])]), .completed⟩

instance (d : Device sampleClient) (event : Event) : Decidable (Authentic sampleSigned d event) :=
  @instDecidableAuthentic sampleClient sampleSigned decidableSigned d event

instance (d : Device sampleClient) (event : Event) : Decidable (Guarded sampleSigned d event) :=
  @instDecidableGuarded sampleClient sampleSigned decidableSigned decidableEverSigned d event

abbrev SampleAuthentic (events : List Event) : Prop :=
  Meets Device.step (Authentic (C := sampleClient) sampleSigned) .new events

/-- A peer is asked twice, forgotten, and asked again under another key. -/
def honestRun : List Event :=
  [.restart, signedCall "aa" "hello" .completed, .restart, signedCall "aa" "hello" .completed,
    .forget "peer:80" .completed, signedCall "bb" "evil" .completed]

theorem known_peer_answers_honestRun : SampleAuthentic honestRun := by
  have hguarded : Meets Device.step (Guarded (C := sampleClient) sampleSigned) .new honestRun := by
    decide +kernel
  exact known_peer_answers sampleSigned sampleClient_readable unforgeable_sample hguarded

/-- **A peer that claims no key, an old reply, a key that was not saved, and a peer that could not be
forgotten: each time another's text is shown for the peer.** -/
theorem known_peer_impersonated :
    (∀ key, sampleScheme.Unforgeable key fun text => ∃ n, sampleSigned key n text) ∧ sampleClient.Readable ∧
      ¬ SampleAuthentic [.restart, signedCall "aa" "hello" .completed, keylessCall "evil"] ∧
      ¬ SampleAuthentic [.restart, signedCall "aa" "hello" .completed, signedCall "aa" "hello" .completed,
        signedCall "aa" "hello" .completed] ∧
      ¬ SampleAuthentic [.restart, signedCall "aa" "hello" .untouched, signedCall "aa" "hello" .completed,
        .restart, signedCall "bb" "evil" .completed] ∧
      ¬ SampleAuthentic [.restart, signedCall "aa" "hello" .completed, .forget "peer:80" .untouched,
        signedCall "bb" "evil" .completed] := by
  refine ⟨unforgeable_sample, sampleClient_readable, ?_, ?_, ?_, ?_⟩
  all_goals decide +kernel

end Hyperion.Console
