import QuorumVault.Key.Exchange
import QuorumVault.Key.SecretBox
import QuorumVault.Sharing.Share

/-!
# Envelopes

What travels over the wire: a message locked under a key that is encapsulated for its recipient. A
share travels in an envelope whose associated data is a fixed label, a master key in one whose
associated data is the nonce of the request that it answers. The recipient knows the associated
data, so an envelope does not carry it.
-/

namespace QuorumVault

/-- A locked message with the encapsulation of its key. -/
structure Envelope where
  encapsulation : Bytes
  iv : Bytes
  /-- The ciphertext with its tag. -/
  cipherText : Bytes
deriving DecidableEq

namespace Envelope

def empty : Envelope := ⟨[], [], []⟩

def isEmpty (e : Envelope) : Bool :=
  e.encapsulation.isEmpty && e.iv.isEmpty && e.cipherText.isEmpty

/-- The associated data of an envelope with a share. -/
def shareLabel : Bytes := Bytes.ofText "sealed-enclave/share/v1"

/-- The locked message, given its associated data. -/
def box? (e : Envelope) (associated : Bytes) : Except CryptoFault SecretBox :=
  SecretBox.ofParts? e.cipherText e.iv associated

/-! ### Making and opening -/

/-- The envelope of a locked message and its encapsulated key. -/
def ofBox (encapsulation : Octets 32) (box : SecretBox) : Envelope :=
  ⟨encapsulation.toList, box.iv.toList, box.cipherText⟩

/-- Packs a message for a recipient with a given ephemeral secret and initialisation vector. -/
def packWith (suite : CipherSuite) (ephemeral : Octets 32) (iv : Octets 16) (recipient : PublicKey)
    (associated message : Bytes) : Except CryptoFault Envelope := do
  let e ← recipient.encapsulateWith suite ephemeral
  let box ← SecretBox.lockWith e.key iv associated message
  return ofBox e.encapsulation box

def pack (suite : CipherSuite) (recipient : PublicKey) (associated message : Bytes) :
    Drawing CryptoFault Envelope := do
  let e ← recipient.encapsulate suite
  let box ← SecretBox.lock e.key associated message
  return ofBox e.encapsulation box

def packShare (suite : CipherSuite) (recipient : PublicKey) (share : Share) :
    Drawing CryptoFault Envelope :=
  pack suite recipient shareLabel share.toBytes

def unpack (suite : CipherSuite) (pair : KeyPair) (associated : Bytes) (e : Envelope) :
    Except CryptoFault Bytes := do
  let key ← pair.decapsulate suite e.encapsulation
  let box ← e.box? associated
  box.unlock key

def unpackShare (suite : CipherSuite) (pair : KeyPair) (e : Envelope) :
    Except CryptoFault Share := do
  Share.ofBytes? (← e.unpack suite pair shareLabel)

/-! ### JSON -/

def toJson (e : Envelope) : Json :=
  .object [("encapsulation", .string (Base64.standard.encode e.encapsulation)),
    ("iv", .string (Base64.standard.encode e.iv)),
    ("cipherText", .string (Base64.standard.encode e.cipherText))]

def record : Decode.Record Envelope :=
  Envelope.mk <$> .required "encapsulation" Decode.bytes <*> .required "iv" Decode.bytes
    <*> .required "cipherText" Decode.bytes

def shareReader (form : Decode.Form) : Decode.Reader Envelope := record.read form "EncryptedShare"

/-- Reads an envelope with a master key. -/
def bundleReader (form : Decode.Form) : Decode.Reader Envelope :=
  record.read form "ProvisioningBundle"

end Envelope

end QuorumVault
