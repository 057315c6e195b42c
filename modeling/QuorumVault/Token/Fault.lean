import QuorumVault.Key.CryptoFault
import QuorumVault.Text.Hex

/-!
# Token faults

The causes for which a token is refused, and their wording.
-/

namespace QuorumVault

/-- Why a token is refused. -/
inductive TokenFault where
  | malformed (reason : String)
  | version (found : UInt8)
  | signature
  | expired
  | notYetValid
  | crypto (fault : CryptoFault)
deriving DecidableEq

def TokenFault.message : TokenFault → String
  | .malformed reason => s!"Token is malformed: {reason}"
  | .version found => s!"Unsupported token version: 0x{Hex.encode [found]}"
  | .signature => "Token signature is invalid"
  | .expired => "Token has expired"
  | .notYetValid => "Token is not yet valid"
  | .crypto fault => s!"Token crypto failure: {fault.message}"

end QuorumVault
