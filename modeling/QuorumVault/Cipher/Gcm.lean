import QuorumVault.Cipher.Aes

/-!
# AES-256-GCM

Authenticated encryption in Galois/counter mode (NIST SP 800-38D) with an initialisation vector of
16 bytes and a tag of 16 bytes at the end of the ciphertext.

`encrypt` and `decrypt` work on whole messages. Decryption recomputes the tag over the associated
data and the ciphertext body, and opens the body only if the tag agrees.
-/

namespace QuorumVault.Gcm

/-! ### The authenticating hash -/

/-- The product of two elements of the field of 2¹²⁸ elements, in which the highest bit of a block
is the constant term. -/
def multiply (x y : BitVec 128) : BitVec 128 :=
  ((List.range 128).foldl
    (fun (acc : BitVec 128 × BitVec 128) i =>
      (if x.getMsbD i then acc.1 ^^^ acc.2 else acc.1,
        if acc.2.getLsbD 0 then (acc.2 >>> 1) ^^^ (0xe1#128 <<< 120) else acc.2 >>> 1))
    (0#128, y)).1

/-- The field element in a block of sixteen bytes. -/
def element (block : Bytes) : BitVec 128 := BitVec.ofNat 128 (Bytes.toNatBE block)

/-- Horner evaluation at `key` of the polynomial whose coefficients are the blocks of `data`. -/
def polynomialHash (key : BitVec 128) (data : Bytes) : BitVec 128 :=
  (Bytes.chunks 16 data).foldl (fun acc block => multiply (acc ^^^ element block) key) 0#128

/-- What is authenticated: the associated data and the ciphertext body, each filled up to whole
blocks, and their lengths in bits. -/
def authenticated (associated body : Bytes) : Bytes :=
  Bytes.padded 16 associated ++ Bytes.padded 16 body ++
    Bytes.ofNatBE 8 (8 * associated.length) ++ Bytes.ofNatBE 8 (8 * body.length)

/-! ### Counter mode -/

/-- A key made ready for use. -/
structure Engine where
  roundKeys : List Aes.Block
  /-- The point at which the authenticating polynomial is evaluated. -/
  hashKey : BitVec 128

def engine (key : Octets 32) : Engine :=
  let roundKeys := Aes.schedule key
  ⟨roundKeys, element (Aes.encrypt roundKeys ⟨0, 0, 0, 0⟩).toOctets.toList⟩

/-- The counter block that belongs to an initialisation vector. -/
def startingBlock (e : Engine) (iv : Octets 16) : Aes.Block :=
  Aes.Block.ofBytes
    (Bytes.ofNatBE 16
      (polynomialHash e.hashKey (iv.toList ++ Bytes.ofNatBE 8 0 ++ Bytes.ofNatBE 8 128)).toNat)

/-- The `i`-th counter block; the count wraps around in the last column. -/
def counterBlock (start : Aes.Block) (i : Nat) : Aes.Block :=
  { start with c3 := start.c3 + UInt32.ofNat i }

/-- At least `length` bytes of key stream; the starting block itself is left for the tag. -/
def keystream (e : Engine) (start : Aes.Block) (length : Nat) : Bytes :=
  (List.range ((length + 15) / 16)).flatMap fun i =>
    (Aes.encrypt e.roundKeys (counterBlock start (i + 1))).toOctets.toList

/-- Applies the key stream; doing so twice gives the message back. -/
def mask (e : Engine) (start : Aes.Block) (message : Bytes) : Bytes :=
  Bytes.xor message (keystream e start message.length)

def tag (e : Engine) (start : Aes.Block) (associated body : Bytes) : Octets 16 :=
  let hash := polynomialHash e.hashKey (authenticated associated body)
  ((Aes.Block.ofBytes (Bytes.ofNatBE 16 hash.toNat)).xor (Aes.encrypt e.roundKeys start)).toOctets

/-! ### Messages -/

def tagLength : Nat := 16

/-- The greatest number of bytes of a message or of associated data. -/
def maxLength : Nat := 0x1000000000

/-- The ciphertext of a message, or nothing if it or the associated data is too long. -/
def encrypt (key : Octets 32) (iv : Octets 16) (associated message : Bytes) : Option Bytes :=
  if message.length ≤ maxLength ∧ associated.length ≤ maxLength then
    let e := engine key
    let start := startingBlock e iv
    let body := mask e start message
    some (body ++ (tag e start associated body).toList)
  else none

/-- The message of a ciphertext, or nothing if it is not one that `encrypt` makes. -/
def decrypt (key : Octets 32) (iv : Octets 16) (associated ciphertext : Bytes) : Option Bytes :=
  let size := ciphertext.length - tagLength
  if tagLength ≤ ciphertext.length ∧ size ≤ maxLength ∧ associated.length ≤ maxLength then
    let e := engine key
    let start := startingBlock e iv
    let body := ciphertext.take size
    if (tag e start associated body).toList = ciphertext.drop size then some (mask e start body)
    else none
  else none

end QuorumVault.Gcm
