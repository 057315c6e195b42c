import QuorumVault.Hash.Sha256
import QuorumVault.Json.Decode
import QuorumVault.Text.Hex

/-!
# Handles of tokens

A token together with the digest by which it is looked up. Two handles count as the same if their
digests agree.
-/

namespace QuorumVault

/-- A token with its digest. -/
structure TokenHandle where
  digest : Octets 32
  text : String
deriving DecidableEq

namespace TokenHandle

def ofText (text : String) : TokenHandle := ⟨Sha256.digest (Bytes.ofText text), text⟩

/-- Whether two handles count as the same. -/
def same (a b : TokenHandle) : Bool := a.digest = b.digest

/-- How a handle is shown: by the beginning of its digest. -/
def shown (h : TokenHandle) : String := s!"HashedToken({Hex.encode (h.digest.toList.take 4)}..)"

def toJson (h : TokenHandle) : Json :=
  .object [("hash", .array (h.digest.toList.map fun b => .nat b.toNat)), ("token", .string h.text)]

def record (form : Decode.Form) : Decode.Record TokenHandle :=
  TokenHandle.mk <$> .required "hash" (Decode.octets form 32) <*> .required "token" Decode.text

def reader (form : Decode.Form) : Decode.Reader TokenHandle :=
  (record form).read form "HashedToken"

end TokenHandle

end QuorumVault
