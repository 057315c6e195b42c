import QuorumVault.Json.Decode
import QuorumVault.Text.Blank

/-!
# Cipher suites

The symmetric algorithms that an exchanged key may be used for. Their label takes part in the
derivation of the key, so that keys for two algorithms differ.
-/

namespace QuorumVault

/-- A symmetric algorithm. -/
inductive CipherSuite where
  | aes256Gcm
deriving DecidableEq, Inhabited

namespace CipherSuite

def all : List CipherSuite := [.aes256Gcm]

/-- The label that takes part in key derivation. -/
def label : CipherSuite → String
  | .aes256Gcm => "aes-256-gcm"

def keyLength : CipherSuite → Nat
  | .aes256Gcm => 32

def name : CipherSuite → String
  | .aes256Gcm => "aes256-gcm"

def shown : CipherSuite → String
  | .aes256Gcm => "Aes256Gcm"

/-- The names under which a setting may call it. -/
def aliases : List (String × CipherSuite) :=
  [("aes-256-gcm", .aes256Gcm), ("aes256gcm", .aes256Gcm)]

/-- The algorithm that a setting names, in either case of letters. -/
def ofText? (text : String) : Except String CipherSuite :=
  let lowered := Text.lowered text
  match aliases.lookup lowered with
  | some suite => .ok suite
  | none => .error s!"unsupported symmetric algorithm: {lowered}"

def toJson (suite : CipherSuite) : Json := .string suite.name

def reader (form : Decode.Form) : Decode.Reader CipherSuite :=
  Decode.oneOf form (all.map fun suite => (suite.name, suite))

end CipherSuite

end QuorumVault
