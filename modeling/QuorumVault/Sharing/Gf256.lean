/-!
# The field of 256 elements

Polynomials over two elements with degree below eight, modulo `x⁸ + x⁴ + x³ + x² + 1`. Bit `i` of an
element is the coefficient of `xⁱ`, so that addition is exclusive or.
-/

namespace QuorumVault

/-- An element of the field. -/
structure Gf256 where
  bits : UInt8
deriving DecidableEq

namespace Gf256

/-- The element whose coefficients are the bits of a byte. -/
def ofByte (b : UInt8) : Gf256 := ⟨b⟩

/-- The byte whose bits are the coefficients. -/
def toByte (a : Gf256) : UInt8 := a.bits

@[simp] theorem ofByte_toByte (a : Gf256) : ofByte a.toByte = a := rfl

@[simp] theorem toByte_ofByte (b : UInt8) : (ofByte b).toByte = b := rfl

instance : Zero Gf256 := ⟨⟨0⟩⟩

instance : One Gf256 := ⟨⟨1⟩⟩

instance : Inhabited Gf256 := ⟨0⟩

/-- The sum, which is also the difference. -/
def add (a b : Gf256) : Gf256 := ⟨a.bits ^^^ b.bits⟩

instance : Add Gf256 := ⟨add⟩

/-- The product with `x`: a term `x⁸` is replaced by the rest of the modulus. -/
def timesX (a : Gf256) : Gf256 :=
  ⟨(a.bits <<< 1) ^^^ (if a.bits &&& 0x80 = 0 then 0 else 0x1d)⟩

/-- The product with the polynomial whose coefficients are the lowest `n` bits of a byte. -/
def timesBits : (n : Nat) → (bits : UInt8) → Gf256 → Gf256
  | 0, _, _ => 0
  | n + 1, bits, a => (if bits &&& 1 = 0 then 0 else a) + timesBits n (bits >>> 1) a.timesX

def mul (a b : Gf256) : Gf256 := timesBits 8 b.bits a

instance : Mul Gf256 := ⟨mul⟩

def product (as : List Gf256) : Gf256 := as.foldl (· * ·) 1

/-- The inverse of an element that is not zero, which is its power with exponent 254: the product of
its squares, fourth powers and so on up to the 128th. -/
def inverse (a : Gf256) : Gf256 :=
  ((List.range 7).foldl
    (fun (acc : Gf256 × Gf256) _ => let square := acc.2 * acc.2; (acc.1 * square, square))
    (1, a)).1

/-- The quotient by an element that is not zero. -/
def div (a b : Gf256) : Gf256 := a * b.inverse

instance : Div Gf256 := ⟨div⟩

/-! ### Tables of products

An element by which many others are multiplied is multiplied by every element once. -/

/-- The products of an element with every element, in the order of their bits. -/
def multiples (a : Gf256) : Vector Gf256 256 := .ofFn fun i => a * ⟨.ofNat i⟩

/-- The product with `b` among the products of the other factor. -/
def productIn (products : Vector Gf256 256) (b : Gf256) : Gf256 :=
  have : b.bits.toNat < 256 := b.bits.toNat_lt
  products[b.bits.toNat]

@[simp] theorem productIn_multiples (a b : Gf256) : productIn a.multiples b = a * b := by
  simp [productIn, multiples]

end Gf256

end QuorumVault
