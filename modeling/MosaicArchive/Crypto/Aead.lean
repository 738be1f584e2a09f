import MosaicArchive.Bytes.FixedWidth

/-!
Authenticated encryption with associated data, as its users see it. A log of
sealed messages says what was encrypted; an ideal scheme opens nothing else.
-/

open FixedWidth

/-- The two operations take a key, a nonce, associated data and a text. -/
structure Aead where
  encrypt : Bytes → Bytes → Bytes → Bytes → Option Bytes
  decrypt : Bytes → Bytes → Bytes → Bytes → Option Bytes

namespace Aead

/-- A call of `encrypt` that succeeded. -/
structure Sealed where
  nonce : Bytes
  aad : Bytes
  message : Bytes
  ciphertext : Bytes
  deriving DecidableEq

/-- Encryption always succeeds, adds a tag of sixteen bytes and is inverted by
decryption. -/
def Inverts (aead : Aead) : Prop :=
  ∀ key nonce aad message, ∃ ciphertext, aead.encrypt key nonce aad message = some ciphertext ∧
    ciphertext.length = message.length + 16 ∧
    aead.decrypt key nonce aad ciphertext = some message

/-- A ciphertext that opens is longer than its message by a tag of sixteen bytes. -/
def Expands (aead : Aead) : Prop :=
  ∀ key nonce aad ciphertext message, aead.decrypt key nonce aad ciphertext = some message →
    ciphertext.length = message.length + 16

/-- Under some keys nothing is opened but what is in the log, and to the message
that was sealed. -/
def OpensOnly (aead : Aead) (keys : Set Bytes) (log : Set Sealed) : Prop :=
  ∀ key ∈ keys, ∀ nonce aad ciphertext message,
    aead.decrypt key nonce aad ciphertext = some message → ⟨nonce, aad, message, ciphertext⟩ ∈ log

/-- A scheme that appends a constant tag. -/
def tagged : Aead where
  encrypt _ _ _ message := some (message ++ List.replicate 16 0)
  decrypt _ _ _ ciphertext :=
    if 16 ≤ ciphertext.length then some (ciphertext.take (ciphertext.length - 16)) else none

theorem tagged_inverts : tagged.Inverts := by
  intro key nonce aad message
  refine ⟨_, rfl, by simp, ?_⟩
  simp [tagged]

theorem tagged_expands : tagged.Expands := by
  intro key nonce aad ciphertext message h
  simp only [tagged] at h
  split_ifs at h with hlength
  rw [← Option.some.inj h, List.length_take]
  omega

/-- Encryption of one scheme, with a decryption that opens a given log only. -/
def restricted (aead : Aead) (log : List Sealed) : Aead where
  encrypt := aead.encrypt
  decrypt _ nonce aad ciphertext :=
    (log.find? fun s => s.nonce = nonce ∧ s.aad = aad ∧ s.ciphertext = ciphertext).map
      Sealed.message

theorem restricted_opensOnly (aead : Aead) (log : List Sealed) (keys : Set Bytes) :
    (aead.restricted log).OpensOnly keys {s | s ∈ log} := by
  intro key _ nonce aad ciphertext message h
  obtain ⟨s, hfind, rfl⟩ := Option.map_eq_some_iff.mp h
  have hmatch := List.find?_some hfind
  simp only [decide_eq_true_eq] at hmatch
  obtain ⟨rfl, rfl, rfl⟩ := hmatch
  exact List.mem_of_find?_eq_some hfind

end Aead
