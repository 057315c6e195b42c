import QuorumVault.Attestation.Request
import QuorumVault.Refusal

/-!
# Policies

Whom a vault hands its master key to: to everyone, or to those whose request carries a signature
that an identity accepts.
-/

namespace QuorumVault

/-- Whom a vault hands its master key to. -/
inductive Policy where
  | alwaysAccept
  /-- To those whose signature meets a threshold. -/
  | verify (verifier : Identity) (threshold : Nat)

namespace Policy

def shown : Policy → String
  | alwaysAccept => "AlwaysAccept"
  | verify _ threshold => s!"Verify \x7b threshold: {threshold}, .. \x7d"

/-- Refuses a request that the policy does not accept. -/
def check (policy : Policy) (r : KeyRequest) : Except Refusal Unit :=
  match policy with
  | alwaysAccept => .ok ()
  | verify verifier threshold =>
    match r.signature with
    | none => .error (.attestation "request is not signed")
    | some signature =>
      match verifier.verify threshold signature r.payload with
      | .error fault => .error (.attestation fault.message)
      | .ok true => .ok ()
      | .ok false => .error (.attestation s!"signature does not meet threshold {threshold}")

end Policy

end QuorumVault
