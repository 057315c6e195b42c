import QuorumVault.Bytes
import QuorumVault.Key.CryptoFault

/-!
# Secret keys

A symmetric key of 32 bytes, whose bytes no message shows.
-/

namespace QuorumVault

/-- A symmetric key. -/
structure SecretKey where
  octets : Octets 32
deriving DecidableEq

namespace SecretKey

def ofBytes? (bytes : Bytes) : Except CryptoFault SecretKey :=
  match Octets.ofBytes? 32 bytes with
  | some octets => .ok ⟨octets⟩
  | none => .error (.keyLength 32 bytes.length)

def toBytes (key : SecretKey) : Bytes := key.octets.toList

def shown (_ : SecretKey) : String := "SymmetricKey(<redacted>)"

@[simp] theorem ofBytes?_toBytes (key : SecretKey) : ofBytes? key.toBytes = .ok key := by
  simp [ofBytes?, toBytes]

end SecretKey

end QuorumVault
