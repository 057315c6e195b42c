/-!
# Cryptographic faults

The causes for which an operation on keys, sealed messages or shares fails, and their wording.
-/

namespace QuorumVault

/-- Why a cryptographic operation fails. -/
inductive CryptoFault where
  | aead
  | keyLength (expected actual : Nat)
  | ivLength (expected actual : Nat)
  | encapsulation (reason : String)
  /-- A key exchange with a point of small order. -/
  | nonContributory
  | keyDerivation
  | random
  | split (reason : String)
  | combine (reason : String)
  | share (reason : String)
deriving DecidableEq

def CryptoFault.message : CryptoFault → String
  | .aead => "AEAD authentication failed"
  | .keyLength expected actual =>
    s!"Invalid key length: expected {expected} bytes, got {actual}"
  | .ivLength expected actual => s!"Invalid IV length: expected {expected} bytes, got {actual}"
  | .encapsulation reason => s!"Malformed encapsulation: {reason}"
  | .nonContributory => "Key exchange produced a non-contributory shared secret"
  | .keyDerivation => "Key derivation failed"
  | .random => "Secure random generator failure"
  | .split reason => s!"Secret split failed: {reason}"
  | .combine reason => s!"Secret combine failed: {reason}"
  | .share reason => s!"Malformed share: {reason}"

end QuorumVault
