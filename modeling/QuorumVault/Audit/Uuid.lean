import QuorumVault.Bytes
import QuorumVault.Text.Hex

/-!
# Random identifiers

The text of a version 4 UUID: 32 lowercase hexadecimal digits in groups of 8, 4, 4, 4 and 12, of
which the first of the third group tells the version and the first of the fourth the variant.
-/

namespace QuorumVault.Uuid

/-- Random bytes with version and variant put in. -/
def stamped (octets : Octets 16) : Bytes :=
  octets.toList.mapIdx fun i b =>
    if i = 6 then (b &&& 0x0f) ||| 0x40 else if i = 8 then (b &&& 0x3f) ||| 0x80 else b

/-- The identifier made from random bytes. -/
def ofOctets (octets : Octets 16) : String :=
  let bytes := stamped octets
  let group (first count : Nat) : String := Hex.encode ((bytes.drop first).take count)
  "-".intercalate [group 0 4, group 4 2, group 6 2, group 8 2, group 10 6]

/-- Whether a character may stand at a place of an identifier. -/
def fits (place : Nat) (c : Char) : Bool :=
  if place = 8 ∨ place = 13 ∨ place = 18 ∨ place = 23 then c == '-'
  else if place = 14 then c == '4'
  else if place = 19 then c == '8' || c == '9' || c == 'a' || c == 'b'
  else (Digit.lowerHex? c).isSome

def isUuid (text : String) : Bool :=
  let chars := text.toList
  chars.length == 36 && (chars.mapIdx fits).all id

end QuorumVault.Uuid
