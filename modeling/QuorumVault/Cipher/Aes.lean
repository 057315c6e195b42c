import QuorumVault.Bytes

/-!
# AES-256

The block cipher of FIPS 197 with a key of 32 bytes, in the forward direction only: every mode of
this library runs the cipher forwards.

A state is four columns of four bytes; a column is a 32-bit word whose highest byte is its top row.
-/

namespace QuorumVault.Aes

/-- Four columns of four bytes. -/
structure Block where
  c0 : UInt32
  c1 : UInt32
  c2 : UInt32
  c3 : UInt32
deriving DecidableEq

namespace Block

/-- The word in the four bytes that start at `index`. -/
def wordAt (bytes : Bytes) (index : Nat) : UInt32 :=
  UInt32.ofNat (Bytes.toNatBE ((bytes.drop index).take 4))

/-- The block in the first sixteen of the given bytes. -/
def ofBytes (bytes : Bytes) : Block :=
  ⟨wordAt bytes 0, wordAt bytes 4, wordAt bytes 8, wordAt bytes 12⟩

def toOctets (s : Block) : Octets 16 :=
  ⟨[s.c0, s.c1, s.c2, s.c3].flatMap fun w => Bytes.ofNatBE 4 w.toNat, by simp⟩

def xor (s t : Block) : Block := ⟨s.c0 ^^^ t.c0, s.c1 ^^^ t.c1, s.c2 ^^^ t.c2, s.c3 ^^^ t.c3⟩

end Block

/-- The substitution of bytes, listed by argument. -/
def substitution : Array UInt8 := #[
  0x63, 0x7c, 0x77, 0x7b, 0xf2, 0x6b, 0x6f, 0xc5, 0x30, 0x01, 0x67, 0x2b,
  0xfe, 0xd7, 0xab, 0x76, 0xca, 0x82, 0xc9, 0x7d, 0xfa, 0x59, 0x47, 0xf0,
  0xad, 0xd4, 0xa2, 0xaf, 0x9c, 0xa4, 0x72, 0xc0, 0xb7, 0xfd, 0x93, 0x26,
  0x36, 0x3f, 0xf7, 0xcc, 0x34, 0xa5, 0xe5, 0xf1, 0x71, 0xd8, 0x31, 0x15,
  0x04, 0xc7, 0x23, 0xc3, 0x18, 0x96, 0x05, 0x9a, 0x07, 0x12, 0x80, 0xe2,
  0xeb, 0x27, 0xb2, 0x75, 0x09, 0x83, 0x2c, 0x1a, 0x1b, 0x6e, 0x5a, 0xa0,
  0x52, 0x3b, 0xd6, 0xb3, 0x29, 0xe3, 0x2f, 0x84, 0x53, 0xd1, 0x00, 0xed,
  0x20, 0xfc, 0xb1, 0x5b, 0x6a, 0xcb, 0xbe, 0x39, 0x4a, 0x4c, 0x58, 0xcf,
  0xd0, 0xef, 0xaa, 0xfb, 0x43, 0x4d, 0x33, 0x85, 0x45, 0xf9, 0x02, 0x7f,
  0x50, 0x3c, 0x9f, 0xa8, 0x51, 0xa3, 0x40, 0x8f, 0x92, 0x9d, 0x38, 0xf5,
  0xbc, 0xb6, 0xda, 0x21, 0x10, 0xff, 0xf3, 0xd2, 0xcd, 0x0c, 0x13, 0xec,
  0x5f, 0x97, 0x44, 0x17, 0xc4, 0xa7, 0x7e, 0x3d, 0x64, 0x5d, 0x19, 0x73,
  0x60, 0x81, 0x4f, 0xdc, 0x22, 0x2a, 0x90, 0x88, 0x46, 0xee, 0xb8, 0x14,
  0xde, 0x5e, 0x0b, 0xdb, 0xe0, 0x32, 0x3a, 0x0a, 0x49, 0x06, 0x24, 0x5c,
  0xc2, 0xd3, 0xac, 0x62, 0x91, 0x95, 0xe4, 0x79, 0xe7, 0xc8, 0x37, 0x6d,
  0x8d, 0xd5, 0x4e, 0xa9, 0x6c, 0x56, 0xf4, 0xea, 0x65, 0x7a, 0xae, 0x08,
  0xba, 0x78, 0x25, 0x2e, 0x1c, 0xa6, 0xb4, 0xc6, 0xe8, 0xdd, 0x74, 0x1f,
  0x4b, 0xbd, 0x8b, 0x8a, 0x70, 0x3e, 0xb5, 0x66, 0x48, 0x03, 0xf6, 0x0e,
  0x61, 0x35, 0x57, 0xb9, 0x86, 0xc1, 0x1d, 0x9e, 0xe1, 0xf8, 0x98, 0x11,
  0x69, 0xd9, 0x8e, 0x94, 0x9b, 0x1e, 0x87, 0xe9, 0xce, 0x55, 0x28, 0xdf,
  0x8c, 0xa1, 0x89, 0x0d, 0xbf, 0xe6, 0x42, 0x68, 0x41, 0x99, 0x2d, 0x0f,
  0xb0, 0x54, 0xbb, 0x16]

def substitute (b : UInt8) : UInt8 := substitution.getD b.toNat 0

/-! ### Words -/

/-- The word with the given bytes, top row first. -/
def word (b0 b1 b2 b3 : UInt8) : UInt32 :=
  (b0.toUInt32 <<< 24) ||| (b1.toUInt32 <<< 16) ||| (b2.toUInt32 <<< 8) ||| b3.toUInt32

def row0 (w : UInt32) : UInt8 := (w >>> 24).toUInt8

def row1 (w : UInt32) : UInt8 := (w >>> 16).toUInt8

def row2 (w : UInt32) : UInt8 := (w >>> 8).toUInt8

def row3 (w : UInt32) : UInt8 := w.toUInt8

def substituteWord (w : UInt32) : UInt32 :=
  word (substitute (row0 w)) (substitute (row1 w)) (substitute (row2 w)) (substitute (row3 w))

/-- The word with its bytes moved up by one row. -/
def rotateWord (w : UInt32) : UInt32 := (w <<< 8) ||| (w >>> 24)

/-! ### Rounds -/

/-- Twice a byte in the field of the cipher. -/
def double (b : UInt8) : UInt8 := if b &&& 0x80 = 0 then b <<< 1 else (b <<< 1) ^^^ 0x1b

/-- Substitutes every byte and shifts row `r` by `r` columns. -/
def shiftAndSubstitute (s : Block) : Block :=
  let column (a b c d : UInt32) :=
    word (substitute (row0 a)) (substitute (row1 b)) (substitute (row2 c)) (substitute (row3 d))
  ⟨column s.c0 s.c1 s.c2 s.c3, column s.c1 s.c2 s.c3 s.c0, column s.c2 s.c3 s.c0 s.c1,
    column s.c3 s.c0 s.c1 s.c2⟩

def mixColumn (w : UInt32) : UInt32 :=
  let a := row0 w
  let b := row1 w
  let c := row2 w
  let d := row3 w
  let all := a ^^^ b ^^^ c ^^^ d
  word (a ^^^ all ^^^ double (a ^^^ b)) (b ^^^ all ^^^ double (b ^^^ c))
    (c ^^^ all ^^^ double (c ^^^ d)) (d ^^^ all ^^^ double (d ^^^ a))

def mixColumns (s : Block) : Block :=
  ⟨mixColumn s.c0, mixColumn s.c1, mixColumn s.c2, mixColumn s.c3⟩

/-! ### Key schedule -/

/-- The words of a schedule from the last eight of those before them; `step` counts the words. -/
def scheduleFrom : (count step : Nat) → (constant : UInt8) → (last : List UInt32) → List UInt32
  | 0, _, _, _ => []
  | count + 1, step, constant, last =>
    let previous := last.getD 7 0
    let mixed :=
      if step % 8 = 0 then substituteWord (rotateWord previous) ^^^ word constant 0 0 0
      else if step % 8 = 4 then substituteWord previous
      else previous
    let next := last.headD 0 ^^^ mixed
    let constant := if step % 8 = 0 then double constant else constant
    next :: scheduleFrom count (step + 1) constant (last.tail ++ [next])

def blocks : List UInt32 → List Block
  | a :: b :: c :: d :: rest => ⟨a, b, c, d⟩ :: blocks rest
  | _ => []

def schedule (key : Octets 32) : List Block :=
  let words := (List.range 8).map fun i => Block.wordAt key.toList (4 * i)
  blocks (words ++ scheduleFrom 52 0 1 words)

/-- The rounds for the round keys that are left; the last one mixes no columns. -/
def rounds : List Block → Block → Block
  | [], s => s
  | [k], s => (shiftAndSubstitute s).xor k
  | k :: keys, s => rounds keys ((mixColumns (shiftAndSubstitute s)).xor k)

/-- Encrypts a block with a key that has been scheduled. -/
def encrypt (keys : List Block) (s : Block) : Block :=
  match keys with
  | [] => s
  | k :: keys => rounds keys (s.xor k)

end QuorumVault.Aes
