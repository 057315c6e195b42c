/-!
# Bytes

Byte strings (`Bytes`), byte strings of a fixed length (`Octets n`), and the two orders in which a
number is written in bytes.

Main statements: `Octets.ext` (the bytes determine a fixed-length string), `length_ofNatLE` and
`length_ofNatBE` (a number written in `w` bytes takes `w` bytes), `Octets.toList_ofBytes?`.
-/

namespace QuorumVault

abbrev Bytes := List UInt8

namespace Bytes

/-! ### Text -/

/-- The bytes of a text in UTF-8. -/
def ofText (text : String) : Bytes := text.toUTF8.data.toList

/-! ### Numbers -/

/-- The `width` low bytes of `n`, lowest first. -/
def ofNatLE : (width n : Nat) → Bytes
  | 0, _ => []
  | width + 1, n => UInt8.ofNat n :: ofNatLE width (n / 256)

/-- The `width` low bytes of `n`, highest first. -/
def ofNatBE (width n : Nat) : Bytes := (ofNatLE width n).reverse

/-- The number whose bytes are given lowest first. -/
def toNatLE (bytes : Bytes) : Nat := bytes.foldr (fun b n => b.toNat + 256 * n) 0

/-- The number whose bytes are given highest first. -/
def toNatBE (bytes : Bytes) : Nat := toNatLE bytes.reverse

@[simp] theorem length_ofNatLE (width n : Nat) : (ofNatLE width n).length = width := by
  induction width generalizing n with
  | zero => rfl
  | succ width ih => simp [ofNatLE, ih]

@[simp] theorem length_ofNatBE (width n : Nat) : (ofNatBE width n).length = width := by
  simp [ofNatBE]

/-! ### Combining -/

/-- Byte-wise exclusive or, as long as the shorter of the two. -/
def xor (a b : Bytes) : Bytes := List.zipWith (· ^^^ ·) a b

/-- Consecutive pieces of `size` bytes; the last one may be shorter. -/
def chunks (size : Nat) (bytes : Bytes) : List Bytes :=
  go bytes.length bytes
where
  go : (count : Nat) → Bytes → List Bytes
    | 0, _ => []
    | _ + 1, [] => []
    | count + 1, bytes => bytes.take size :: go count (bytes.drop size)

/-- `bytes` followed by zeros up to a multiple of `size`. -/
def padded (size : Nat) (bytes : Bytes) : Bytes :=
  bytes ++ List.replicate ((size - bytes.length % size) % size) 0

end Bytes

/-- A string of exactly `n` bytes. -/
structure Octets (n : Nat) where
  toList : Bytes
  /-- There are `n` of them. -/
  length_toList : toList.length = n
deriving DecidableEq

namespace Octets

variable {m n : Nat}

attribute [simp] length_toList

@[ext] theorem ext {a b : Octets n} (h : a.toList = b.toList) : a = b := by
  cases a; cases b; cases h; rfl

instance : Inhabited (Octets n) := ⟨⟨List.replicate n 0, by simp⟩⟩

/-- The bytes `f 0, …, f (n - 1)`. -/
def ofFn (f : Nat → UInt8) : Octets n := ⟨(List.range n).map f, by simp⟩

/-- The given bytes, provided that there are `n` of them. -/
def ofBytes? (n : Nat) (bytes : Bytes) : Option (Octets n) :=
  if h : bytes.length = n then some ⟨bytes, h⟩ else none

/-- A string of `n` zeros. -/
def zeros (n : Nat) : Octets n := ⟨List.replicate n 0, by simp⟩

def append (a : Octets m) (b : Octets n) : Octets (m + n) := ⟨a.toList ++ b.toList, by simp⟩

instance : HAppend (Octets m) (Octets n) (Octets (m + n)) := ⟨append⟩

@[simp] theorem toList_append (a : Octets m) (b : Octets n) :
    (a ++ b).toList = a.toList ++ b.toList := rfl

@[simp] theorem ofBytes?_toList (a : Octets n) : ofBytes? n a.toList = some a := by
  simp [ofBytes?]

theorem toList_ofBytes? {bytes : Bytes} {a : Octets n} (h : ofBytes? n bytes = some a) :
    a.toList = bytes := by
  unfold ofBytes? at h
  split at h
  · cases h; rfl
  · cases h

/-- `n` of the bytes of `k`, highest first. -/
def ofNatBE (n k : Nat) : Octets n := ⟨Bytes.ofNatBE n k, by simp⟩

/-- `n` of the bytes of `k`, lowest first. -/
def ofNatLE (n k : Nat) : Octets n := ⟨Bytes.ofNatLE n k, by simp⟩

end Octets

end QuorumVault
