import QuorumVault.Bytes
import QuorumVault.Text.Digit

/-!
# Hexadecimal text

Two lowercase digits for each byte. `Hex.encode` writes them, `Hex.decode?` reads them back and
refuses every other text.
-/

namespace QuorumVault.Hex

def ofByte (b : UInt8) : List Char := [Digit.hex (b.toNat / 16), Digit.hex (b.toNat % 16)]

def encode (bytes : Bytes) : String := String.ofList (bytes.flatMap ofByte)

def decode? (text : String) : Option Bytes :=
  go text.toList
where
  go : List Char → Option Bytes
    | [] => some []
    | [_] => none
    | high :: low :: rest => do
      let high ← Digit.lowerHex? high
      let low ← Digit.lowerHex? low
      let rest ← go rest
      return UInt8.ofNat (16 * high + low) :: rest

end QuorumVault.Hex
