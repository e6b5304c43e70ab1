import Mathlib

/-!
# Signatures

A signature scheme as its callers see it. `Unforgeable` is the assumption under which a signature that
verifies was made by the holder of the key: what verifies under a key is what its holder signed. `SignsOnly`
is the same for the documents of one kind, under a key that signs other things too.
-/

namespace Hyperion.Lib

structure SignatureScheme where
  Keystore : Type
  Signature : Type
  VerifyingKey : Type
  sign : Keystore → List UInt8 → Signature
  verify : List UInt8 → Signature → VerifyingKey → Bool

namespace SignatureScheme

/-- Nothing verifies under the key but texts that its holder signed. -/
def Unforgeable (K : SignatureScheme) (key : K.VerifyingKey) (signed : List UInt8 → Prop) : Prop :=
  ∀ text signature, K.verify text signature key = true → signed text

variable {D : Type}

/-- Nothing that is the text of a document verifies under the key but the texts of the documents that its
holder signed. -/
def SignsOnly (K : SignatureScheme) (key : K.VerifyingKey) (text : D → List UInt8) (signed : D → Prop) : Prop :=
  ∀ d signature, K.verify (text d) signature key = true → ∃ d', signed d' ∧ text d = text d'

/-- A scheme whose signatures are the signer's number and the text. -/
def tagged : SignatureScheme where
  Keystore := Nat
  Signature := Nat × List UInt8
  VerifyingKey := Nat
  sign key text := (key, text)
  verify text signature key := decide (signature = (key, text))

/-- A scheme that keeps what was signed: a key is the list of the texts that its holder signed. -/
def ledger : SignatureScheme where
  Keystore := List (List UInt8)
  Signature := Unit
  VerifyingKey := List (List UInt8)
  sign _ _ := ()
  verify text _ key := decide (text ∈ key)

theorem signsOnly_ledger (text : D → List UInt8) (docs : List D) :
    ledger.SignsOnly (docs.map text) text (· ∈ docs) := by
  intro d signature hverify
  obtain ⟨d', hd', htext⟩ := List.mem_map.mp (of_decide_eq_true hverify)
  exact ⟨d', hd', htext.symm⟩

end SignatureScheme

end Hyperion.Lib
