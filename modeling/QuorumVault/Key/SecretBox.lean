import QuorumVault.Cipher.Gcm
import QuorumVault.Entropy
import QuorumVault.Key.SecretKey

/-!
# Locked messages

A message locked under a secret key together with associated data that stays readable. Each message
is locked under a fresh initialisation vector. `SecretBox.unlock` gives back what was locked, and
nothing else: ciphertext, initialisation vector and associated data all have to be those of `lock`.
-/

namespace QuorumVault

/-- A locked message. -/
structure SecretBox where
  /-- The ciphertext with its tag. -/
  cipherText : Bytes
  iv : Octets 16
  associated : Bytes
deriving DecidableEq

namespace SecretBox

def ofParts? (cipherText iv associated : Bytes) : Except CryptoFault SecretBox :=
  match Octets.ofBytes? 16 iv with
  | some iv => .ok ⟨cipherText, iv, associated⟩
  | none => .error (.ivLength 16 iv.length)

/-- Locks a message under a given initialisation vector. -/
def lockWith (key : SecretKey) (iv : Octets 16) (associated message : Bytes) :
    Except CryptoFault SecretBox :=
  match Gcm.encrypt key.octets iv associated message with
  | some cipherText => .ok ⟨cipherText, iv, associated⟩
  | none => .error .aead

/-- Locks a message under a fresh initialisation vector. -/
def lock (key : SecretKey) (associated message : Bytes) : Drawing CryptoFault SecretBox := do
  let iv ← Drawing.octets 16 (.fault .random)
  Drawing.ofExcept (lockWith key iv associated message)

def unlock (key : SecretKey) (box : SecretBox) : Except CryptoFault Bytes :=
  match Gcm.decrypt key.octets box.iv box.associated box.cipherText with
  | some message => .ok message
  | none => .error .aead

end SecretBox

end QuorumVault
