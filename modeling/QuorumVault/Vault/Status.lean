import QuorumVault.Json.Decode

/-!
# Answers of a vault

What a vault answers to those who bring shares: whether it worked, how many shares are pending, and
why it did not work.
-/

namespace QuorumVault

/-- The answer to a share, and to starting and ending a session. -/
structure Status where
  success : Bool
  shareCount : Nat
  message : String
deriving DecidableEq

namespace Status

def ok (shareCount : Nat) : Status := ⟨true, shareCount, ""⟩

def failure (shareCount : Nat) (message : String) : Status := ⟨false, shareCount, message⟩

def toJson (s : Status) : Json :=
  .object [("success", .bool s.success), ("shareCount", .nat s.shareCount),
    ("message", .string s.message)]

def record : Decode.Record Status :=
  Status.mk <$> .required "success" Decode.flag <*> .required "shareCount" Decode.count
    <*> .required "message" Decode.text

def reader (form : Decode.Form) : Decode.Reader Status := record.read form "Status"

end Status

/-- The answer to the attempt to reconstruct the master key. -/
structure UnwrapStatus where
  success : Bool
  shareCount : Nat
  identifierDigest : Option Bytes
  message : String
deriving DecidableEq

namespace UnwrapStatus

def failure (shareCount : Nat) (message : String) : UnwrapStatus :=
  ⟨false, shareCount, none, message⟩

/-- The JSON value of an answer; an absent digest is left out. -/
def toJson (s : UnwrapStatus) : Json :=
  .object ([("success", .bool s.success), ("shareCount", .nat s.shareCount)] ++
    (s.identifierDigest.toList.map fun d =>
      ("identifierDigest", .string (Base64.standard.encode d))) ++
    [("message", .string s.message)])

def record : Decode.Record UnwrapStatus :=
  UnwrapStatus.mk <$> .required "success" Decode.flag <*> .required "shareCount" Decode.count
    <*> .optional "identifierDigest" .everywhere Decode.bytes <*> .required "message" Decode.text

def reader (form : Decode.Form) : Decode.Reader UnwrapStatus := record.read form "UnwrapStatus"

end UnwrapStatus

end QuorumVault
