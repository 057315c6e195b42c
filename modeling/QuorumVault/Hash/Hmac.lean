import QuorumVault.Hash.Sha256

/-!
# Keyed hashing and key expansion

`Hmac.tag` is the message authentication code of RFC 2104 over SHA-256. `Hkdf.derive` is the key
derivation of RFC 5869 over it, for the 32 bytes of output that every key of this library takes.
-/

namespace QuorumVault

namespace Hmac

/-- A key as one block of 64 bytes: a longer key is hashed first, a shorter one filled with zeros.
-/
def keyBlock (key : Bytes) : Bytes :=
  let short := if 64 < key.length then (Sha256.digest key).toList else key
  short ++ List.replicate (64 - short.length) 0

/-- The authentication code of a message under a key. -/
def tag (key message : Bytes) : Octets 32 :=
  let block := keyBlock key
  let inner := Sha256.digest (block.map (· ^^^ 0x36) ++ message)
  Sha256.digest (block.map (· ^^^ 0x5c) ++ inner.toList)

end Hmac

namespace Hkdf

/-- The salt that stands in for an absent one. -/
def noSalt : Bytes := List.replicate 32 0

/-- Condenses input key material into one uniform key. -/
def extract (salt material : Bytes) : Octets 32 := Hmac.tag salt material

/-- The first block of output for a purpose. -/
def expand (key : Octets 32) (purpose : Bytes) : Octets 32 := Hmac.tag key.toList (purpose ++ [1])

/-- Thirty-two bytes of key for a purpose. -/
def derive (salt material purpose : Bytes) : Octets 32 := expand (extract salt material) purpose

end Hkdf

end QuorumVault
