/-!
# Settings and their faults

The names under which settings are looked up, and the causes for which settings are refused.
-/

namespace QuorumVault

/-- A setting that can be looked up. -/
inductive Setting where
  | shareCount
  | threshold
  | derivation
  | suite
  | endpoint
  | auditCapacity
  | validatedCapacity
  | validatedTtl
  | rejectedCapacity
  | rejectedTtl
  | maxAge
deriving DecidableEq

def Setting.name : Setting → String
  | .shareCount => "ENCLAVE_SHARE_COUNT"
  | .threshold => "ENCLAVE_THRESHOLD"
  | .derivation => "ENCLAVE_KEY_DERIVATION"
  | .suite => "ENCLAVE_SYMMETRIC_ALGORITHM"
  | .endpoint => "ENCLAVE_ENDPOINT"
  | .auditCapacity => "ENCLAVE_AUDIT_CAPACITY"
  | .validatedCapacity => "TOKEN_CACHE_VALID_CAPACITY"
  | .validatedTtl => "TOKEN_CACHE_VALID_TTL_SECS"
  | .rejectedCapacity => "TOKEN_CACHE_INVALID_CAPACITY"
  | .rejectedTtl => "TOKEN_CACHE_INVALID_TTL_SECS"
  | .maxAge => "TOKEN_MAX_AGE_SECS"

/-- Why settings are refused. -/
inductive SettingsFault where
  | value (setting : Setting) (reason : String)
  | threshold (threshold count : UInt8)
  | endpoint (text reason : String)
deriving DecidableEq

def SettingsFault.message : SettingsFault → String
  | .value setting reason => s!"Invalid value for {setting.name}: {reason}"
  | .threshold t n => s!"Invalid threshold: need 2 <= T <= N <= 255 (T={t}, N={n})"
  | .endpoint text reason => s!"Invalid endpoint: {text}: {reason}"

end QuorumVault
