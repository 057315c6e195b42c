import QuorumVault.Hash.Hmac
import QuorumVault.Hash.Sha512
import QuorumVault.Json.Decode
import QuorumVault.Key.SecretKey
import QuorumVault.Text.Blank

/-!
# Derivation of the master key

The ways in which a master key is made from the root secret that shares reconstruct. A digest makes
a key only if it has the length of one; each of the digests here has, so that every secret has a
key.
-/

namespace QuorumVault

/-- A way to make a master key from a root secret. -/
inductive Derivation where
  | sha256
  | sha512_256
  | hkdfSha256
deriving DecidableEq, Inhabited

namespace Derivation

/-- What the key is for, as HKDF is told. -/
def purpose : Bytes := Bytes.ofText "sealed-enclave/master-key/v1"

def derive (d : Derivation) (secret : Bytes) : SecretKey :=
  match d with
  | .sha256 => ⟨Sha256.digest secret⟩
  | .sha512_256 => ⟨Sha512.digest256 secret⟩
  | .hkdfSha256 => ⟨Hkdf.derive Hkdf.noSalt secret purpose⟩

def keyOfDigest? {n : Nat} (digest : Octets n) : Except CryptoFault SecretKey :=
  SecretKey.ofBytes? digest.toList

/-- The master key of a root secret, with the length of the digest checked. -/
def derive? (d : Derivation) (secret : Bytes) : Except CryptoFault SecretKey :=
  match d with
  | .sha256 => keyOfDigest? (Sha256.digest secret)
  | .sha512_256 => keyOfDigest? (Sha512.digest256 secret)
  | .hkdfSha256 => .ok ⟨Hkdf.derive Hkdf.noSalt secret purpose⟩

@[simp] theorem derive?_eq (d : Derivation) (secret : Bytes) :
    d.derive? secret = .ok (d.derive secret) := by
  cases d with
  | sha256 => simp [derive?, derive, keyOfDigest?, SecretKey.ofBytes?]
  | sha512_256 => simp [derive?, derive, keyOfDigest?, SecretKey.ofBytes?]
  | hkdfSha256 => rfl

/-! ### Names -/

def all : List Derivation := [.sha256, .sha512_256, .hkdfSha256]

def name : Derivation → String
  | .sha256 => "sha256"
  | .sha512_256 => "sha512-256"
  | .hkdfSha256 => "hkdf-sha256"

def shown : Derivation → String
  | .sha256 => "Sha256"
  | .sha512_256 => "Sha512_256"
  | .hkdfSha256 => "HkdfSha256"

/-- The names under which a setting may call it. -/
def aliases : List (String × Derivation) :=
  [("sha256", .sha256), ("sha-256", .sha256), ("sha512-256", .sha512_256),
    ("sha512_256", .sha512_256), ("hkdf-sha256", .hkdfSha256), ("hkdf", .hkdfSha256)]

/-- The derivation that a setting names, in either case of letters. -/
def ofText? (text : String) : Except String Derivation :=
  let lowered := Text.lowered text
  match aliases.lookup lowered with
  | some d => .ok d
  | none => .error s!"unsupported key derivation: {lowered}"

def toJson (d : Derivation) : Json := .string d.name

def reader (form : Decode.Form) : Decode.Reader Derivation :=
  Decode.oneOf form (all.map fun d => (d.name, d))

end Derivation

end QuorumVault
