import Hyperion.Privacy.Consent

/-!
# What a consent proof pins

`canonical_bytes` writes the name of a scope and the purpose one after the other without their lengths, and
then a mark and eight bytes, or the mark alone, for the expiry. So the bytes do not tell where the name ends,
nor whether the last bytes of the purpose are an expiry. They pin a grant up to these two.
-/

namespace Hyperion.Privacy
open Lib Capability Storage Hyperion.Graph List ConsentLedger

/-- What is signed of a grant. -/
structure Terms where
  id : Nat
  subject : Nat
  scope : DataScope
  purpose : String
  expiry : Option Nat
  grantedAt : Nat
deriving DecidableEq, Repr

namespace Terms

def bytes (t : Terms) : List UInt8 :=
  canonicalBytes t.id t.subject t.scope t.purpose t.expiry t.grantedAt

def grant {K : SignatureScheme} (t : Terms) (proof : K.Signature) : ConsentGrant K :=
  ⟨t.id, t.subject, t.scope, t.purpose, t.expiry, t.grantedAt, proof⟩

/-- The numbers are of 64 bits. -/
structure FitsU64 (t : Terms) : Prop where
  id : t.id < 2 ^ 64
  subject : t.subject < 2 ^ 64
  object : ∀ nodeId, t.scope = .object nodeId → nodeId < 2 ^ 64
  expiry : ∀ e, t.expiry = some e → e < 2 ^ 64
  grantedAt : t.grantedAt < 2 ^ 64

end Terms

def ConsentGrant.terms {K : SignatureScheme} (g : ConsentGrant K) : Terms :=
  ⟨g.id, g.subject, g.scope, g.purpose, g.expiry, g.grantedAt⟩

def scopeText : DataScope → List UInt8
  | .domain name => 0 :: utf8Bytes name.toList
  | .object nodeId => 1 :: toLeBytes 8 nodeId
  | .capability name => 2 :: utf8Bytes name.toList

def expiryText : Option Nat → List UInt8 := optionText 0 1 (toLeBytes 8)

def SameShape (a b : Terms) : Prop :=
  (scopeText a.scope).length = (scopeText b.scope).length ∧ a.expiry.isSome = b.expiry.isSome

/-! ## The bytes -/

theorem Terms.bytes_eq (t : Terms) : t.bytes = toLeBytes 8 t.id ++ (toLeBytes 8 t.subject ++
    (scopeText t.scope ++ (utf8Bytes t.purpose.toList ++ (expiryText t.expiry ++ toLeBytes 8 t.grantedAt)))) := by
  obtain ⟨id, subject, scope, purpose, expiry, grantedAt⟩ := t
  cases scope <;> cases expiry <;> simp [bytes, canonicalBytes, scopeText, expiryText, optionText]

theorem utf8Bytes_toList_inj {s t : String} (h : utf8Bytes s.toList = utf8Bytes t.toList) : s = t :=
  String.toList_inj.mp (utf8Bytes_injective h)

theorem scopeText_inj {a b : DataScope} (ha : ∀ nodeId, a = .object nodeId → nodeId < 2 ^ 64)
    (hb : ∀ nodeId, b = .object nodeId → nodeId < 2 ^ 64) (h : scopeText a = scopeText b) : a = b := by
  cases a <;> cases b <;> simp only [scopeText, List.cons.injEq] at h
  case domain.domain => rw [utf8Bytes_toList_inj h.2]
  case object.object n m => rw [(framed_toLeBytes 8).inj (ha n rfl) (hb m rfl) h.2]
  case capability.capability => rw [utf8Bytes_toList_inj h.2]
  all_goals exact absurd h.1 (by decide)

theorem length_expiryText {a b : Option Nat} (h : a.isSome = b.isSome) :
    (expiryText a).length = (expiryText b).length := by
  cases a <;> cases b <;> simp_all [expiryText, optionText, length_toLeBytes]

variable {a b : Terms}

theorem Terms.bytes_inj (ha : a.FitsU64) (hb : b.FitsU64) (hshape : SameShape a b)
    (h : a.bytes = b.bytes) : a = b := by
  rw [bytes_eq, bytes_eq] at h
  obtain ⟨hid, h⟩ := framed_toLeBytes 8 _ _ _ _ ha.id hb.id h
  obtain ⟨hsubject, h⟩ := framed_toLeBytes 8 _ _ _ _ ha.subject hb.subject h
  obtain ⟨hscope, h⟩ := append_inj h hshape.1
  -- what follows the purpose is equally long, so the purpose ends at the same byte
  obtain ⟨hpurpose, h⟩ := append_inj' h (by
    rw [length_append, length_append, length_expiryText hshape.2, length_toLeBytes, length_toLeBytes])
  obtain ⟨hexpiry, h⟩ := (framed_toLeBytes 8).option (by decide) _ _ _ _ ha.expiry hb.expiry h
  have hgrantedAt := (framed_toLeBytes 8).inj ha.grantedAt hb.grantedAt h
  cases a
  cases b
  rw [Terms.mk.injEq]
  exact ⟨hid, hsubject, scopeText_inj ha.object hb.object hscope, utf8Bytes_toList_inj hpurpose, hexpiry,
    hgrantedAt⟩

/-! ## What is pinned -/

theorem verify_of_importGrant {K : SignatureScheme} {l : ConsentLedger K} {caller : Caller}
    {grant : ConsentGrant K} {key : K.VerifyingKey} (h : (l.importGrant caller grant key).1 = .ok ()) :
    K.verify grant.terms.bytes grant.proof key = true := by
  unfold importGrant at h
  split at h
  · cases h
  · split at h
    · cases h
    · next hverify =>
      show verifyGrant grant key = true
      simpa using hverify

/-- A grant whose bytes the issuer has signed is presented. -/
theorem importGrant_ledger {key : List (List UInt8)} (h : b.bytes ∈ key) :
    (new.importGrant consentWriter (b.grant (K := .ledger) ()) key).1 = .ok () := by
  have hverify : verifyGrant (b.grant (K := .ledger) ()) key = true := decide_eq_true h
  unfold importGrant
  rw [require_consentWriter]
  simp [hverify]

/-- **A proof pins a grant up to its shape.** Two grants with the same bytes are the same exactly if they have
the same shape. So a grant that an import accepts is one that the issuer signed exactly if it has the shape of
a signed one with the same bytes. -/
theorem proof_pins_grant_iff {K : SignatureScheme} (key : K.VerifyingKey) (signed : Set Terms)
    (hfits : ∀ t ∈ signed, t.FitsU64) (hsigns : K.SignsOnly key Terms.bytes (· ∈ signed)) :
    (∀ a b : Terms, a.FitsU64 → b.FitsU64 → a.bytes = b.bytes → (a = b ↔ SameShape a b)) ∧
    ∀ (l : ConsentLedger K) (caller : Caller) (grant : ConsentGrant K), grant.terms.FitsU64 →
      (l.importGrant caller grant key).1 = .ok () → (∃ t ∈ signed, t.bytes = grant.terms.bytes) ∧
        (grant.terms ∈ signed ↔ ∃ t ∈ signed, t.bytes = grant.terms.bytes ∧ SameShape t grant.terms) := by
  refine ⟨fun a b ha hb hbytes => ⟨?_, fun hshape => Terms.bytes_inj ha hb hshape hbytes⟩,
    fun l caller grant hgrant himport => ⟨?_, fun hsigned => ⟨_, hsigned, rfl, rfl, rfl⟩, ?_⟩⟩
  · rintro rfl
    exact ⟨rfl, rfl⟩
  · obtain ⟨t, ht, hbytes⟩ := hsigns _ _ (verify_of_importGrant himport)
    exact ⟨t, ht, hbytes.symm⟩
  · rintro ⟨t, ht, hbytes, hshape⟩
    rwa [← Terms.bytes_inj (hfits t ht) hgrant hshape hbytes]

/-! ## Other splits -/

def noteTerms (scope : DataScope) (purpose : String) (expiry : Option Nat) : Terms :=
  ⟨1, 1, scope, purpose, expiry, 0⟩

def readNotes : Terms := noteTerms (.domain "notes") "read" none

def readMail : Terms := noteTerms (.domain "mail") "read" (some 9)

theorem proof_pins_grant_iff_mail : (ConsentLedger.new.importGrant consentWriter (readMail.grant (K := .ledger) ())
      ([readNotes, readMail].map Terms.bytes)).1 = .ok () ∧
    (readMail ∈ [readNotes, readMail] ↔
      ∃ t ∈ [readNotes, readMail], t.bytes = readMail.bytes ∧ SameShape t readMail) := by
  have hfits : ∀ t ∈ [readNotes, readMail], t.FitsU64 := by
    intro t ht
    simp only [mem_cons, not_mem_nil, or_false] at ht
    rcases ht with rfl | rfl
    · exact ⟨by decide, by decide, nofun, nofun, by decide⟩
    · exact ⟨by decide, by decide, nofun, by rintro e ⟨⟩; decide, by decide⟩
  have himport : (ConsentLedger.new.importGrant consentWriter (readMail.grant (K := .ledger) ())
      ([readNotes, readMail].map Terms.bytes)).1 = .ok () := importGrant_ledger (by simp)
  exact ⟨himport, ((proof_pins_grant_iff (K := .ledger) _ {t | t ∈ [readNotes, readMail]} hfits
    (SignatureScheme.signsOnly_ledger _ _)).2 .new consentWriter (readMail.grant ())
      (hfits readMail (by simp)) himport).2⟩

/-- **A grant for the domain `notesToday` is accepted as one for `notes`**, and one that has expired as one
that does not expire. -/
theorem proof_leaves_split_open :
    (ConsentLedger.new.importGrant consentWriter
      ((noteTerms (.domain "notes") "Today" none).grant (K := .ledger) ())
      [(noteTerms (.domain "notesToday") "" none).bytes]).1 = .ok () ∧
    (ConsentLedger.new.importGrant consentWriter
      ((noteTerms (.object 1) "read\x01\x00\x00\x00\x00\x00\x00\x00" none).grant (K := .ledger) ())
      [(noteTerms (.object 1) "read" (some 0)).bytes]).1 = .ok () :=
  ⟨importGrant_ledger (mem_singleton.mpr (by decide +kernel)),
    importGrant_ledger (mem_singleton.mpr (by decide +kernel))⟩

end Hyperion.Privacy
