import QuorumVault.Bytes

/-!
# X25519

Diffie-Hellman on the u-coordinates of Curve25519 (RFC 7748). Secrets and coordinates are 32 bytes,
lowest byte first. A secret is clamped when it is used; the top bit of a coordinate is ignored and a
coordinate beyond the field's prime is reduced.
-/

namespace QuorumVault.X25519

/-! ### The field -/

def prime : Nat := Nat.pow 2 255 - 19

def add (a b : Nat) : Nat := (a + b) % prime

/-- Difference in the field of two reduced numbers. -/
def sub (a b : Nat) : Nat := (a + (prime - b)) % prime

def mul (a b : Nat) : Nat := a * b % prime

/-- Power in the field, for exponents below 2²⁵⁵. -/
def pow (a exponent : Nat) : Nat :=
  (List.range 255).foldr
    (fun i acc => let square := mul acc acc; if exponent.testBit i then mul square a else square) 1

/-- The inverse of a number that is not zero; zero for zero. -/
def inverse (a : Nat) : Nat := pow a (prime - 2)

/-! ### The ladder -/

/-- Two consecutive multiples of a point, each as a fraction. -/
structure Rungs where
  /-- Numerator of the lower multiple. -/
  x2 : Nat
  /-- Denominator of the lower multiple. -/
  z2 : Nat
  /-- Numerator of the upper multiple. -/
  x3 : Nat
  /-- Denominator of the upper multiple. -/
  z3 : Nat

/-- The two multiples in the other order. -/
def Rungs.swap (r : Rungs) : Rungs := ⟨r.x3, r.z3, r.x2, r.z2⟩

/-- Doubles the lower multiple and adds it to the upper one, given the coordinate of their
difference. -/
def Rungs.double (u : Nat) (r : Rungs) : Rungs :=
  let a := add r.x2 r.z2
  let aa := mul a a
  let b := sub r.x2 r.z2
  let bb := mul b b
  let e := sub aa bb
  let da := mul (sub r.x3 r.z3) a
  let cb := mul (add r.x3 r.z3) b
  let sum := add da cb
  let difference := sub da cb
  ⟨mul aa bb, mul e (add aa (mul 121665 e)), mul sum sum, mul u (mul difference difference)⟩

/-- One step of the ladder for one bit of the scalar. -/
def Rungs.step (u : Nat) (bit : Bool) (r : Rungs) : Rungs :=
  if bit then (r.swap.double u).swap else r.double u

/-- The coordinate of the multiple of a point by a scalar below 2²⁵⁵. -/
def multiple (scalar u : Nat) : Nat :=
  let r := (List.range 255).foldr (fun i r => Rungs.step u (scalar.testBit i) r) ⟨1, 0, u, 1⟩
  mul r.x2 (inverse r.z2)

/-! ### Secrets and coordinates -/

/-- The scalar of a secret: its three low bits are cleared, so that it is a multiple of the
cofactor, and its highest bit is bit 254. -/
def scalar (secret : Octets 32) : Nat :=
  Nat.pow 2 254 + Bytes.toNatLE secret.toList % Nat.pow 2 254 / 8 * 8

/-- The field element that a coordinate denotes. -/
def coordinate (u : Octets 32) : Nat := Bytes.toNatLE u.toList % Nat.pow 2 255 % prime

/-- What the holder of `secret` and the holder of the secret behind `peer` share. -/
def exchange (secret peer : Octets 32) : Octets 32 :=
  Octets.ofNatLE 32 (multiple (scalar secret) (coordinate peer))

def generator : Octets 32 := Octets.ofNatLE 32 9

def publicKey (secret : Octets 32) : Octets 32 := exchange secret generator

/-- An exchange contributes a secret unless its result is zero. -/
def isContributory (shared : Octets 32) : Bool := shared.toList.any (· != 0)

end QuorumVault.X25519
