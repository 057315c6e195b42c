import QuorumVault.Key.CipherSuite
import QuorumVault.Key.Derivation
import QuorumVault.Settings.Endpoint
import QuorumVault.Text.Blank
import QuorumVault.Token.Issuer

/-!
# Settings of a vault

How many shares there are and how many reconstruct the secret, which algorithms are used, how tokens
are remembered, and where the vault is served. Each setting may be looked up by its name; one that
is not there has a standard value. The first setting that cannot be read is reported, and settings
that can all be read are then checked against each other.
-/

namespace QuorumVault

/-- The settings of a vault. -/
structure Settings where
  shareCount : UInt8
  threshold : UInt8
  derivation : Derivation
  suite : CipherSuite
  tokens : TokenPolicy
  endpoint : Endpoint
  auditCapacity : Nat
deriving DecidableEq

namespace Settings

/-- Two of three shares, and the standard value of everything else. -/
def standard : Settings := ⟨3, 2, .sha256, .aes256Gcm, .standard, .standard, 1024⟩

/-- Standard settings but for the shares. -/
def withThreshold (count threshold : UInt8) : Settings :=
  { standard with shareCount := count, threshold := threshold }

/-- Checks settings against each other. -/
def check (s : Settings) : Except SettingsFault Unit :=
  if s.threshold < 2 ∨ s.shareCount < s.threshold then
    .error (.threshold s.threshold s.shareCount)
  else if s.tokens.validatedCapacity = 0 then
    .error (.value .validatedCapacity "must be greater than zero")
  else if s.tokens.rejectedCapacity = 0 then
    .error (.value .rejectedCapacity "must be greater than zero")
  else .ok ()

/-! ### Looking settings up -/

/-- The text of each setting that is there, by name. -/
abbrev Lookup := String → Option String

/-- The value of a setting, with white space around its text ignored. -/
def read {α : Type} (lookup : Lookup) (setting : Setting) (parse : String → Except String α) :
    Except SettingsFault (Option α) :=
  match lookup setting.name with
  | none => .ok none
  | some text =>
    match parse (Text.trimmed text) with
    | .ok a => .ok (some a)
    | .error reason => .error (.value setting reason)

/-- The value of a setting, or a standard value. -/
def readOr {α : Type} (standard : α) (lookup : Lookup) (setting : Setting)
    (parse : String → Except String α) : Except SettingsFault α :=
  match read lookup setting parse with
  | .ok value => .ok (value.getD standard)
  | .error fault => .error fault

/-- A number up to `max`. -/
def numeral (max : Nat) (text : String) : Except String Nat :=
  match Numeral.read max text.toList with
  | .ok n => .ok n
  | .error fault => .error fault.message

def byte (text : String) : Except String UInt8 := (numeral 255 text).map UInt8.ofNat

/-- A number of 64 bits. -/
def word (text : String) : Except String Nat := numeral 0xffffffffffffffff text

def seconds (text : String) : Except String Duration := (word text).map Duration.ofSeconds

/-- The endpoint, whose text is taken as it is. -/
def readEndpoint (lookup : Lookup) : Except SettingsFault Endpoint :=
  match lookup Setting.endpoint.name with
  | none => .ok standard.endpoint
  | some text => Endpoint.ofText? text

/-- The settings that are looked up, before they are checked against each other. -/
def readAll (lookup : Lookup) : Except SettingsFault Settings := do
  let maxAge ← read lookup .maxAge seconds
  let shareCount ← readOr standard.shareCount lookup .shareCount byte
  let threshold ← readOr standard.threshold lookup .threshold byte
  let derivation ← readOr standard.derivation lookup .derivation Derivation.ofText?
  let suite ← readOr standard.suite lookup .suite CipherSuite.ofText?
  let validatedCapacity ← readOr standard.tokens.validatedCapacity lookup .validatedCapacity word
  let validatedTtl ← readOr standard.tokens.validatedTtl lookup .validatedTtl seconds
  let rejectedCapacity ← readOr standard.tokens.rejectedCapacity lookup .rejectedCapacity word
  let rejectedTtl ← readOr standard.tokens.rejectedTtl lookup .rejectedTtl seconds
  let endpoint ← readEndpoint lookup
  let auditCapacity ← readOr standard.auditCapacity lookup .auditCapacity word
  return ⟨shareCount, threshold, derivation, suite,
    ⟨validatedCapacity, validatedTtl, rejectedCapacity, rejectedTtl, maxAge⟩, endpoint,
    auditCapacity⟩

def ofLookup (lookup : Lookup) : Except SettingsFault Settings := do
  let settings ← readAll lookup
  settings.check
  return settings

end Settings

end QuorumVault
