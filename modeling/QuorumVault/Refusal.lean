import QuorumVault.Key.CryptoFault
import QuorumVault.Settings.Fault

/-!
# Refusals

The causes for which a vault refuses an operation, their wording, and the codes under which callers
know them.
-/

namespace QuorumVault

/-- Why a vault refuses an operation. -/
inductive Refusal where
  | precondition (reason : String)
  /-- A peer has not shown that it may have the master key. -/
  | attestation (reason : String)
  | crypto (fault : CryptoFault)
  | masterKey (reason : String)
  | settings (fault : SettingsFault)
deriving DecidableEq

namespace Refusal

def code : Refusal → String
  | precondition _ => "failed_precondition"
  | attestation _ => "attestation_rejected"
  | crypto _ => "crypto_failure"
  | masterKey _ => "master_key_derivation"
  | settings _ => "invalid_config"

/-- Whether the vault cannot be used at all. -/
def isFatal : Refusal → Bool
  | masterKey _ | settings _ => true
  | precondition _ | attestation _ | crypto _ => false

def message : Refusal → String
  | precondition reason => s!"Failed precondition: {reason}"
  | attestation reason => s!"Attestation rejected: {reason}"
  | crypto fault => s!"Cryptographic failure: {fault.message}"
  | masterKey reason => s!"Master key derivation failed: {reason}"
  | settings fault => s!"Configuration error: {fault.message}"

end Refusal

end QuorumVault
