import QuorumVault.Hash.Hmac

/-!
# Identities

The layer that stands behind a vault and vouches for it: it signs on behalf of the vault, and it
tells whether a signature of another vault meets a threshold. A vault knows it by these functions
only.
-/

namespace QuorumVault

/-- Why an identity does not answer. -/
inductive IdentityFault where
  | unavailable (reason : String)
  | signing (reason : String)
  | verification (reason : String)
deriving DecidableEq

def IdentityFault.message : IdentityFault → String
  | .unavailable reason => s!"Identity unavailable: {reason}"
  | .signing reason => s!"Signing failed: {reason}"
  | .verification reason => s!"Verification failed: {reason}"

/-- An identity. -/
structure Identity where
  digest : Bytes
  sign : (payload : Bytes) → Except IdentityFault Bytes
  /-- Whether a signature of a payload meets a threshold. -/
  verify : (threshold : Nat) → (signature payload : Bytes) → Except IdentityFault Bool

namespace Identity

/-- The identity of all who share a key. It stands for a single signer, so it meets no threshold
above one. -/
def ofSharedKey (key : Bytes) : Identity where
  digest := (Sha256.digest key).toList
  sign payload := .ok (Hmac.tag key payload).toList
  verify threshold signature payload :=
    .ok (threshold ≤ 1 && (Hmac.tag key payload).toList == signature)

end Identity

end QuorumVault
