import QuorumVault.Bytes

/-!
# Base64 text

Four characters for three bytes, with `=` filling the last group. Reading is strict: a text is
accepted only if it is what `encode` writes for some bytes, so every byte string has one text and
every accepted text one byte string.

The standard alphabet is used on the wire, the alphabet for addresses in tokens.
-/

namespace QuorumVault

/-- An alphabet of sixty-four characters: letters, digits and two more. -/
structure Base64 where
  char62 : Char
  char63 : Char

namespace Base64

/-- The standard alphabet, which ends in `+` and `/`. -/
def standard : Base64 := ⟨'+', '/'⟩

/-- The alphabet for addresses and file names, which ends in `-` and `_`. -/
def address : Base64 := ⟨'-', '_'⟩

/-- The character for a number below sixty-four. -/
def symbol (alphabet : Base64) (n : Nat) : Char :=
  if n < 26 then Char.ofNat (65 + n)
  else if n < 52 then Char.ofNat (71 + n)
  else if n < 62 then Char.ofNat (n - 4)
  else if n = 62 then alphabet.char62
  else alphabet.char63

/-- The number that a character of the alphabet stands for. -/
def value? (alphabet : Base64) (c : Char) : Option Nat :=
  if 'A' ≤ c ∧ c ≤ 'Z' then some (c.toNat - 65)
  else if 'a' ≤ c ∧ c ≤ 'z' then some (c.toNat - 71)
  else if '0' ≤ c ∧ c ≤ '9' then some (c.toNat + 4)
  else if c = alphabet.char62 then some 62
  else if c = alphabet.char63 then some 63
  else none

/-! ### Writing -/

def encodeChars (alphabet : Base64) : Bytes → List Char
  | [] => []
  | [a] =>
    [alphabet.symbol (a.toNat / 4), alphabet.symbol (a.toNat % 4 * 16), '=', '=']
  | [a, b] =>
    [alphabet.symbol (a.toNat / 4), alphabet.symbol (a.toNat % 4 * 16 + b.toNat / 16),
      alphabet.symbol (b.toNat % 16 * 4), '=']
  | a :: b :: c :: rest =>
    alphabet.symbol (a.toNat / 4) :: alphabet.symbol (a.toNat % 4 * 16 + b.toNat / 16) ::
      alphabet.symbol (b.toNat % 16 * 4 + c.toNat / 64) :: alphabet.symbol (c.toNat % 64) ::
        alphabet.encodeChars rest

def encode (alphabet : Base64) (bytes : Bytes) : String :=
  String.ofList (alphabet.encodeChars bytes)

/-! ### Reading -/

/-- The bytes of a last group, whose unused bits have to be zero. -/
def lastGroup? (alphabet : Base64) (w x y z : Char) : Option Bytes := do
  let w ← alphabet.value? w
  let x ← alphabet.value? x
  if z = '=' then
    if y = '=' then
      if x % 16 = 0 then some [UInt8.ofNat (w * 4 + x / 16)] else none
    else
      let y ← alphabet.value? y
      if y % 4 = 0 then some [UInt8.ofNat (w * 4 + x / 16), UInt8.ofNat (x % 16 * 16 + y / 4)]
      else none
  else
    let y ← alphabet.value? y
    let z ← alphabet.value? z
    some [UInt8.ofNat (w * 4 + x / 16), UInt8.ofNat (x % 16 * 16 + y / 4),
      UInt8.ofNat (y % 4 * 64 + z)]

/-- The three bytes of a group that others follow. -/
def group? (alphabet : Base64) (w x y z : Char) : Option Bytes := do
  let w ← alphabet.value? w
  let x ← alphabet.value? x
  let y ← alphabet.value? y
  let z ← alphabet.value? z
  return [UInt8.ofNat (w * 4 + x / 16), UInt8.ofNat (x % 16 * 16 + y / 4),
    UInt8.ofNat (y % 4 * 64 + z)]

/-- The bytes that the characters stand for. -/
def decodeChars? (alphabet : Base64) : List Char → Option Bytes
  | [] => some []
  | [w, x, y, z] => alphabet.lastGroup? w x y z
  | w :: x :: y :: z :: rest => do
    let head ← alphabet.group? w x y z
    let rest ← alphabet.decodeChars? rest
    return head ++ rest
  | _ => none

def decode? (alphabet : Base64) (text : String) : Option Bytes :=
  alphabet.decodeChars? text.toList

/-! ### Byte strings of a fixed length -/

/-- Why a text does not denote a byte string of a fixed length. -/
inductive Fault where
  | encoding
  | length (expected : Nat)
deriving DecidableEq

/-- The wording for a text that is no Base64. -/
def invalid : String := "invalid Base64 encoding"

/-- The wording of a fault; `noun` says what the text should denote. -/
def Fault.message (noun : String) : Fault → String
  | .encoding => s!"invalid base64: {invalid}"
  | .length expected => s!"{noun} must be {expected} bytes"

/-- The `n` bytes that a text in the standard alphabet stands for. -/
def octets? (n : Nat) (text : String) : Except Fault (Octets n) :=
  match standard.decode? text with
  | none => .error .encoding
  | some bytes =>
    match Octets.ofBytes? n bytes with
    | some octets => .ok octets
    | none => .error (.length n)

end Base64

end QuorumVault
