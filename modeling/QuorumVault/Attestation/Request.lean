import QuorumVault.Attestation.Identity
import QuorumVault.Attestation.Nonce
import QuorumVault.Key.Exchange

/-!
# Requests for the master key

A vault that collects shares may instead ask a peer for the master key. The request names the public
key for which the answer is to be packed and a nonce, and may be signed. The signature covers both.
-/

namespace QuorumVault

/-- A request for the master key. -/
structure KeyRequest where
  sessionKey : PublicKey
  nonce : Nonce
  signature : Option Bytes
deriving DecidableEq

namespace KeyRequest

/-- What is signed: the public key and the nonce. -/
def payload (r : KeyRequest) : Bytes := r.sessionKey.octets.toList ++ r.nonce.toBytes

def unsigned (sessionKey : PublicKey) (nonce : Nonce) : KeyRequest := ⟨sessionKey, nonce, none⟩

/-- A request that an identity has signed. -/
def signed (sessionKey : PublicKey) (nonce : Nonce) (identity : Identity) :
    Except IdentityFault KeyRequest :=
  match identity.sign (unsigned sessionKey nonce).payload with
  | .ok signature => .ok ⟨sessionKey, nonce, some signature⟩
  | .error fault => .error fault

/-! ### JSON -/

/-- The JSON value of a request; an absent signature is left out. -/
def toJson (r : KeyRequest) : Json :=
  .object ([("sessionKey", r.sessionKey.toJson), ("nonce", r.nonce.toJson)] ++
    r.signature.toList.map fun s => ("signature", .string (Base64.standard.encode s)))

def record : Decode.Record KeyRequest :=
  KeyRequest.mk <$> .required "sessionKey" PublicKey.reader <*> .required "nonce" Nonce.reader
    <*> .optional "signature" .everywhere Decode.bytes

def reader (form : Decode.Form) : Decode.Reader KeyRequest := record.read form "ProvisioningRequest"

end KeyRequest

end QuorumVault
