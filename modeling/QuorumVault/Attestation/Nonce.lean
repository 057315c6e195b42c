import QuorumVault.Entropy
import QuorumVault.Json.Decode
import QuorumVault.Key.CryptoFault

/-!
# Nonces

The number by which a request for the master key differs from every other. An answer is bound to the
nonce of its request.
-/

namespace QuorumVault

/-- The nonce of a request. -/
structure Nonce where
  octets : Octets 32
deriving DecidableEq

namespace Nonce

def fresh : Drawing CryptoFault Nonce := do
  let octets ← Drawing.octets 32 (.fault .random)
  return ⟨octets⟩

def toBytes (nonce : Nonce) : Bytes := nonce.octets.toList

def text (nonce : Nonce) : String := Base64.standard.encode nonce.toBytes

def ofText? (text : String) : Except String Nonce :=
  match Base64.octets? 32 text with
  | .ok octets => .ok ⟨octets⟩
  | .error fault => .error (fault.message "nonce")

/-- How a nonce is shown: by its first bytes. -/
def shown (nonce : Nonce) : String :=
  s!"AttestationNonce({Base64.standard.encode (nonce.toBytes.take 6)})"

def toJson (nonce : Nonce) : Json := .string nonce.text

def reader : Decode.Reader Nonce := Decode.parsed ofText?

end Nonce

end QuorumVault
