import QuorumVault.Hash.Hmac
import QuorumVault.Key.SecretBox
import QuorumVault.Text.Base64
import QuorumVault.Time.Instant
import QuorumVault.Token.Fault

/-!
# The format of tokens

A token carries a payload under two keys that are derived from the master key. Its bytes are a
version, the time of issue in whole seconds, an initialisation vector, the locked payload, and an
authentication code over all of these; its text is their Base64 in the alphabet for addresses. The
header of version and time is associated data of the payload.

Reading refuses a text for its form first, then for its authentication code, and only then looks at
the time of issue.
-/

namespace QuorumVault

/-- The keys under which tokens are made. -/
structure TokenKeys where
  signing : Octets 32
  encryption : SecretKey
deriving DecidableEq

/-- The token keys that belong to a master key. -/
def TokenKeys.derive (master : SecretKey) : TokenKeys :=
  ⟨Hkdf.derive Hkdf.noSalt master.toBytes (Bytes.ofText "sealed-enclave/token/signing/v1"),
    ⟨Hkdf.derive Hkdf.noSalt master.toBytes (Bytes.ofText "sealed-enclave/token/encryption/v1")⟩⟩

namespace Token

/-! ### Age -/

/-- How far in the future a token may have been issued, because clocks differ. -/
def maxSkew : Duration := .ofSeconds 60

/-- For how many whole seconds a token has been issued, below zero for one from the future. The
difference is a signed number of 64 bits that stops at the ends of its range. -/
def age (issued now : Timestamp) : Int :=
  max (-0x8000000000000000) (min (now.seconds - issued.seconds) 0x7fffffffffffffff)

/-- Refuses a token for its age, which is counted in whole seconds. -/
def checkAge (issued now : Timestamp) (maxAge : Option Duration) : Except TokenFault Unit :=
  let age := age issued now
  if age < 0 ∧ maxSkew.seconds < age.natAbs then .error .notYetValid
  else
    match maxAge with
    | none => .ok ()
    | some limit =>
      if 0 < age ∧ limit.seconds < age.natAbs then .error .expired else .ok ()

/-! ### Layout -/

def version : UInt8 := 0x80

def headerLength : Nat := 9

/-- The number of bytes of the authentication code. -/
def codeLength : Nat := 32

/-- The number of bytes of a token with an empty payload. -/
def minLength : Nat := headerLength + 16 + Gcm.tagLength + codeLength

/-- The version and the seconds of issue in two's complement, highest byte first. -/
def header (seconds : Int) : Bytes :=
  version :: Bytes.ofNatBE 8 (seconds % 0x10000000000000000).toNat

def headerSeconds (header : Bytes) : Int :=
  let n := Bytes.toNatBE (header.drop 1)
  if n < 0x8000000000000000 then n else n - 0x10000000000000000

/-- The bytes of a token behind which its authentication code stands. -/
def signedPart (box : SecretBox) : Bytes := box.associated ++ box.iv.toList ++ box.cipherText

def textOf (keys : TokenKeys) (box : SecretBox) : String :=
  let body := signedPart box
  Base64.address.encode (body ++ (Hmac.tag keys.signing.toList body).toList)

/-! ### Writing -/

/-- The token for a payload, made with a given initialisation vector. -/
def encodeWith (keys : TokenKeys) (iv : Octets 16) (payload : Bytes) (now : Timestamp) :
    Except TokenFault String :=
  match SecretBox.lockWith keys.encryption iv (header now.seconds) payload with
  | .ok box => .ok (textOf keys box)
  | .error fault => .error (.crypto fault)

def encode (keys : TokenKeys) (payload : Bytes) (now : Timestamp) : Drawing TokenFault String := do
  let iv ← Drawing.octets 16 (.fault (.crypto .random))
  Drawing.ofExcept (encodeWith keys iv payload now)

/-! ### Reading -/

/-- A token whose authentication code is right and whose age is allowed. -/
structure Verified where
  issuedAt : Timestamp
  box : SecretBox

/-- Checks a token without unlocking its payload. -/
def verify (keys : TokenKeys) (text : String) (now : Timestamp) (maxAge : Option Duration) :
    Except TokenFault Verified :=
  match Base64.address.decode? text with
  | none => .error (.malformed Base64.invalid)
  | some raw =>
    if raw.length < minLength then .error (.malformed s!"{raw.length} bytes is too short")
    else if raw.getD 0 0 ≠ version then .error (.version (raw.getD 0 0))
    else
      let body := raw.take (raw.length - codeLength)
      if (Hmac.tag keys.signing.toList body).toList ≠ raw.drop (raw.length - codeLength) then
        .error .signature
      else
        let header := body.take headerLength
        match Timestamp.ofSeconds? (headerSeconds header) with
        | none => .error (.malformed "timestamp out of range")
        | some issued =>
          match checkAge issued now maxAge with
          | .error fault => .error fault
          | .ok () =>
            let rest := body.drop headerLength
            match SecretBox.ofParts? (rest.drop 16) (rest.take 16) header with
            | .ok box => .ok ⟨issued, box⟩
            | .error fault => .error (.crypto fault)

/-- A token whose payload has been unlocked. -/
structure Decoded where
  issuedAt : Timestamp
  payload : Bytes
deriving DecidableEq

/-- Checks a token and unlocks its payload. -/
def decode (keys : TokenKeys) (text : String) (now : Timestamp) (maxAge : Option Duration) :
    Except TokenFault Decoded :=
  match verify keys text now maxAge with
  | .error fault => .error fault
  | .ok verified =>
    match verified.box.unlock keys.encryption with
    | .ok payload => .ok ⟨verified.issuedAt, payload⟩
    | .error fault => .error (.crypto fault)

end Token

end QuorumVault
