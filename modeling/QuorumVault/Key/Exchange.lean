import QuorumVault.Curve.X25519
import QuorumVault.Entropy
import QuorumVault.Hash.Hmac
import QuorumVault.Json.Decode
import QuorumVault.Key.CipherSuite
import QuorumVault.Key.SecretKey

/-!
# Key exchange

A sender who knows a public key agrees with its owner on a secret key: the sender draws an ephemeral
secret, sends its public value as the encapsulation, and both sides derive the key from what the two
secrets share. The encapsulation and the recipient's public key take part in the derivation.
-/

namespace QuorumVault

/-! ### Public keys -/

/-- The public value of a private key. -/
structure PublicKey where
  octets : Octets 32
deriving DecidableEq

namespace PublicKey

def text (key : PublicKey) : String := Base64.standard.encode key.octets.toList

/-- The public key that a text denotes. -/
def ofText? (text : String) : Except String PublicKey :=
  match Base64.octets? 32 text with
  | .ok octets => .ok ⟨octets⟩
  | .error fault => .error (fault.message "session key")

def shown (key : PublicKey) : String := s!"SessionKey({key.text})"

def toJson (key : PublicKey) : Json := .string key.text

def reader : Decode.Reader PublicKey := Decode.parsed ofText?

end PublicKey

/-! ### Key pairs -/

/-- A private key with the public key that belongs to it. -/
structure KeyPair where
  secret : Octets 32
deriving DecidableEq

namespace KeyPair

def publicKey (pair : KeyPair) : PublicKey := ⟨X25519.publicKey pair.secret⟩

def generate {ε : Type} : Drawing ε KeyPair := do
  let secret ← Drawing.octets 32 .exhausted
  return ⟨secret⟩

/-- How a key pair is shown; its private key is not. -/
def shown (pair : KeyPair) : String :=
  s!"KemKeyPair \x7b public: {pair.publicKey.shown}, .. \x7d"

end KeyPair

/-! ### Encapsulation -/

/-- A secret key together with the message from which its recipient derives it too. -/
structure Encapsulated where
  key : SecretKey
  encapsulation : Octets 32
deriving DecidableEq

namespace Exchange

def purpose (suite : CipherSuite) : Bytes :=
  Bytes.ofText "sealed-enclave/kem/x25519-hkdf-sha256/v1" ++ Bytes.ofText suite.label

/-- The key that belongs to a shared secret; the encapsulation and the recipient are its salt. -/
def derive (suite : CipherSuite) (shared encapsulation recipient : Octets 32) : SecretKey :=
  ⟨Hkdf.derive (encapsulation.toList ++ recipient.toList) shared.toList (purpose suite)⟩

/-- The key between a secret and a peer, unless they share nothing. -/
def agree (suite : CipherSuite) (secret peer encapsulation recipient : Octets 32) :
    Except CryptoFault SecretKey :=
  let shared := X25519.exchange secret peer
  if X25519.isContributory shared then .ok (derive suite shared encapsulation recipient)
  else .error .nonContributory

end Exchange

/-- A key for a recipient, made with a given ephemeral secret. -/
def PublicKey.encapsulateWith (suite : CipherSuite) (ephemeral : Octets 32)
    (recipient : PublicKey) : Except CryptoFault Encapsulated :=
  let encapsulation := X25519.publicKey ephemeral
  match Exchange.agree suite ephemeral recipient.octets encapsulation recipient.octets with
  | .ok key => .ok ⟨key, encapsulation⟩
  | .error fault => .error fault

/-- A key for a recipient, made with a fresh ephemeral secret. -/
def PublicKey.encapsulate (suite : CipherSuite) (recipient : PublicKey) :
    Drawing CryptoFault Encapsulated := do
  let ephemeral ← Drawing.octets 32 .exhausted
  Drawing.ofExcept (recipient.encapsulateWith suite ephemeral)

/-- The key that a sender made for the owner of a key pair. -/
def KeyPair.decapsulate (suite : CipherSuite) (pair : KeyPair) (encapsulation : Bytes) :
    Except CryptoFault SecretKey :=
  match Octets.ofBytes? 32 encapsulation with
  | some peer => Exchange.agree suite pair.secret peer peer pair.publicKey.octets
  | none => .error (.encapsulation s!"expected 32 bytes, got {encapsulation.length}")

end QuorumVault
