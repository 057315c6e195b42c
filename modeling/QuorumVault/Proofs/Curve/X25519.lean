import Mathlib.Tactic
import QuorumVault.Proofs.Bytes
import QuorumVault.Proofs.Curve.Ladder
import QuorumVault.Proofs.Curve.Prime

/-!
# The exchange is symmetric

The ladder finds the coordinate of a multiple of any point whose coordinate it is given
(`multiple_coordinateOf`).  The generator is the coordinate of a point, so that either side of an
exchange finds the coordinate of the multiple of this point by both scalars (`exchange_publicKey`).

A step of the ladder keeps the two points that its fractions represent one multiple apart
(`Rungs.IsAt.step`).  This fails for the point whose coordinate is zero, for which the fractions
degenerate but remain zero (`Rungs.IsNull.step`).
-/

namespace QuorumVault.X25519

open Montgomery WeierstrassCurve.Affine

/-- The field over which the curve is defined. -/
abbrev Field25519 := ZMod prime

/-- Curve25519. -/
abbrev curve25519 : WeierstrassCurve.Affine Field25519 := Montgomery.curve 486662

/-! ### Arithmetic -/

theorem prime_pos : 0 < prime := prime_prime.pos

theorem mul_lt (a b : ℕ) : mul a b < prime := Nat.mod_lt _ prime_pos

@[simp] theorem cast_add (a b : ℕ) : (add a b : Field25519) = a + b := by
  rw [add, ZMod.natCast_mod, Nat.cast_add]

@[simp] theorem cast_mul (a b : ℕ) : (mul a b : Field25519) = a * b := by
  rw [mul, ZMod.natCast_mod, Nat.cast_mul]

theorem cast_sub (a : ℕ) {b : ℕ} (hb : b < prime) : (sub a b : Field25519) = a - b := by
  rw [sub, ZMod.natCast_mod, Nat.cast_add, Nat.cast_sub hb.le, ZMod.natCast_self]
  ring

theorem two_ne_zero' : (2 : Field25519) ≠ 0 := by
  rw [show (2 : Field25519) = (2 : ℕ) by norm_cast, Ne, ZMod.natCast_eq_zero_iff]
  decide +kernel

theorem coefficient_sq_ne_four : (486662 : Field25519) ^ 2 ≠ 4 := by
  rw [show (486662 : Field25519) ^ 2 = (486662 ^ 2 : ℕ) by norm_cast,
    show (4 : Field25519) = (4 : ℕ) by norm_cast, Ne, ZMod.natCast_eq_natCast_iff']
  decide +kernel

/-! ### Rungs -/

/-- The denominators of two fractions are reduced. -/
structure Rungs.IsReduced (r : Rungs) : Prop where
  lower : r.z2 < prime
  upper : r.z3 < prime

namespace Rungs

variable {u : ℕ} {r : Rungs}

theorem IsReduced.swap (h : r.IsReduced) : r.swap.IsReduced := ⟨h.upper, h.lower⟩

theorem IsReduced.double (r : Rungs) : (r.double u).IsReduced := ⟨mul_lt _ _, mul_lt _ _⟩

theorem cast_double_x2 (h : r.IsReduced) :
    ((r.double u).x2 : Field25519) = ((r.x2 : Field25519) ^ 2 - r.z2 ^ 2) ^ 2 := by
  simp only [double, cast_mul, cast_add, cast_sub _ h.lower]
  ring

theorem cast_double_z2 (h : r.IsReduced) :
    ((r.double u).z2 : Field25519) =
      4 * r.x2 * r.z2 * ((r.x2 : Field25519) ^ 2 + 486662 * r.x2 * r.z2 + r.z2 ^ 2) := by
  simp only [double, cast_mul, cast_add, cast_sub _ h.lower, cast_sub _ (mul_lt _ _)]
  push_cast
  ring

theorem cast_double_x3 (h : r.IsReduced) :
    ((r.double u).x3 : Field25519) = 4 * ((r.x2 : Field25519) * r.x3 - r.z2 * r.z3) ^ 2 := by
  simp only [double, cast_mul, cast_add, cast_sub _ h.lower, cast_sub _ h.upper]
  ring

theorem cast_double_z3 (h : r.IsReduced) :
    ((r.double u).z3 : Field25519) = 4 * u * ((r.x3 : Field25519) * r.z2 - r.z3 * r.x2) ^ 2 := by
  simp only [double, cast_mul, cast_add, cast_sub _ h.lower, cast_sub _ h.upper,
    cast_sub _ (mul_lt _ _)]
  ring

/-! ### Steps -/

/-- The fractions of two points. -/
structure IsAt (r : Rungs) (p q : curve25519.Point) : Prop extends r.IsReduced where
  lowerPoint : Represents (r.x2 : Field25519) r.z2 p
  upperPoint : Represents (r.x3 : Field25519) r.z3 q

theorem IsAt.swap {p q : curve25519.Point} (h : r.IsAt p q) : r.swap.IsAt q p where
  toIsReduced := h.toIsReduced.swap
  lowerPoint := h.upperPoint
  upperPoint := h.lowerPoint

/-- The first point is doubled, and the second one is added to it if `u` is the coordinate of the
difference. -/
theorem IsAt.double {p q : curve25519.Point} {v : Field25519}
    {hd : curve25519.Nonsingular (u : Field25519) v} (hdiff : q - p = .some _ v hd)
    (hu : (u : Field25519) ≠ 0) (h : r.IsAt p q) : (r.double u).IsAt (p + p) (p + q) where
  toIsReduced := IsReduced.double r
  lowerPoint := by
    rw [cast_double_x2 h.toIsReduced, cast_double_z2 h.toIsReduced]
    exact h.lowerPoint.double two_ne_zero' coefficient_sq_ne_four
  upperPoint := by
    rw [cast_double_x3 h.toIsReduced, cast_double_z3 h.toIsReduced]
    exact h.lowerPoint.add two_ne_zero' coefficient_sq_ne_four hdiff hu h.upperPoint

theorem IsAt.step {q : curve25519.Point} {v : Field25519}
    {hd : curve25519.Nonsingular (u : Field25519) v} (hq : q = .some _ v hd)
    (hu : (u : Field25519) ≠ 0) {k : ℕ} (h : r.IsAt (k • q) ((k + 1) • q)) (bit : Bool) :
    (Rungs.step u bit r).IsAt ((2 * k + bit.toNat) • q) ((2 * k + bit.toNat + 1) • q) := by
  -- the rungs are always `q` apart, and swapping them turns their difference into its opposite
  cases bit
  · have hdiff : (k + 1) • q - k • q = .some _ v hd := by rw [succ_nsmul, add_sub_cancel_left, hq]
    have h := h.double hdiff hu
    rw [← add_nsmul, ← add_nsmul, ← add_assoc, ← two_mul] at h
    exact h
  · have hdiff : k • q - (k + 1) • q = -.some _ v hd := by
      rw [succ_nsmul, sub_add_cancel_left, hq]
    rw [Point.neg_some] at hdiff
    have h := (h.swap.double hdiff hu).swap
    rw [← add_nsmul, ← add_nsmul, show k + 1 + k = 2 * k + 1 by ring,
      show k + 1 + (k + 1) = 2 * k + 1 + 1 by ring] at h
    exact h

/-- Both fractions are zero or have the denominator zero. -/
structure IsNull (r : Rungs) : Prop extends r.IsReduced where
  lowerNull : (r.x2 : Field25519) * r.z2 = 0
  upperNull : (r.x3 : Field25519) * r.z3 = 0

theorem IsNull.swap (h : r.IsNull) : r.swap.IsNull where
  toIsReduced := h.toIsReduced.swap
  lowerNull := h.upperNull
  upperNull := h.lowerNull

theorem IsNull.double (h : r.IsNull) : (r.double 0).IsNull where
  toIsReduced := IsReduced.double r
  lowerNull := by
    rw [cast_double_z2 h.toIsReduced, mul_assoc 4, h.lowerNull]
    ring
  upperNull := by
    rw [cast_double_z3 h.toIsReduced, Nat.cast_zero]
    ring

theorem IsNull.step (h : r.IsNull) (bit : Bool) : (Rungs.step 0 bit r).IsNull := by
  cases bit
  · exact h.double
  · exact h.swap.double.swap

end Rungs

/-! ### The ladder -/

theorem multiple_lt (n u : ℕ) : multiple n u < prime := mul_lt _ _

theorem multiple_zero (n : ℕ) : (multiple n 0 : Field25519) = 0 := by
  have h := foldr_testBit (p := fun _ r => Rungs.IsNull r) (Rungs.step 0)
    (fun _ bit _ h => h.step bit) n 255 (x := ⟨1, 0, 0, 1⟩)
    ⟨⟨prime_pos, prime_prime.one_lt⟩, by simp, by simp⟩
  rw [multiple, cast_mul, cast_inverse]
  rcases mul_eq_zero.mp h.lowerNull with h | h
  · rw [h, zero_mul]
  · rw [h, inv_zero, mul_zero]

/-- The point whose coordinate is zero is its own opposite. -/
theorem add_self_eq_zero {q : curve25519.Point} (hq : coordinateOf q = 0) : q + q = 0 := by
  cases q with
  | zero => rfl
  | some x y h =>
    obtain rfl : x = 0 := hq
    have hy : y ^ 2 = 0 := by
      rw [Montgomery.equation_iff.mp h.1]
      ring
    refine Point.add_self_of_Y_eq ?_
    rw [negY_eq, pow_eq_zero_iff two_ne_zero |>.mp hy, neg_zero]

theorem coordinateOf_nsmul_eq_zero {q : curve25519.Point} (hq : coordinateOf q = 0) (n : ℕ) :
    coordinateOf (n • q) = 0 := by
  have hdouble := add_self_eq_zero hq
  -- the multiples alternate between infinity and the point itself
  rcases Nat.even_or_odd' n with ⟨m, rfl | rfl⟩
  · rw [mul_nsmul, two_nsmul, hdouble, nsmul_zero]
    rfl
  · rw [succ_nsmul, mul_nsmul, two_nsmul, hdouble, nsmul_zero, zero_add, hq]

theorem multiple_of_ne_zero {q : curve25519.Point} {u : ℕ} {v : Field25519}
    {hd : curve25519.Nonsingular (u : Field25519) v} (hq : q = .some _ v hd)
    (hu : (u : Field25519) ≠ 0) {n : ℕ} (hn : n < 2 ^ 255) :
    (multiple n u : Field25519) = coordinateOf (n • q) := by
  -- the invariant of the loop: the rungs are at the multiples by the bits so far and by one more
  have h := foldr_testBit (p := fun k r => Rungs.IsAt r (k • q) ((k + 1) • q))
    (Rungs.step u) (fun k bit r h => h.step hq hu bit) n 255 (x := ⟨1, 0, u, 1⟩) ?_
  · rw [multiple, cast_mul, cast_inverse]
    exact h.lowerPoint.mul_inv
  · rw [Nat.shiftRight_eq_div_pow, Nat.div_eq_of_lt hn, zero_nsmul, zero_add, one_nsmul, hq]
    exact ⟨⟨prime_pos, prime_prime.one_lt⟩, ⟨by simp, by simp⟩, ⟨by simp, by simp⟩⟩

/-- **The ladder**: from the coordinate of a point it finds the coordinate of a multiple. -/
theorem multiple_coordinateOf {q : curve25519.Point} {u : ℕ} (hu : u < prime)
    (hq : (u : Field25519) = coordinateOf q) {n : ℕ} (hn : n < 2 ^ 255) :
    (multiple n u : Field25519) = coordinateOf (n • q) := by
  -- the ladder divides by the coordinate of the difference, so zero is a case of its own
  by_cases hzero : (u : Field25519) = 0
  · rw [coordinateOf_nsmul_eq_zero (hq ▸ hzero)]
    have : u = 0 := Nat.eq_zero_of_dvd_of_lt ((ZMod.natCast_eq_zero_iff u prime).mp hzero) hu
    rw [this]
    exact multiple_zero n
  · cases q with
    | zero => exact absurd hq hzero
    | some x y h =>
      obtain rfl : (u : Field25519) = x := hq
      exact multiple_of_ne_zero rfl hzero hn

/-! ### The exchange -/

theorem scalar_lt (secret : Octets 32) : scalar secret < 2 ^ 255 := by
  -- the lowest three bits are cleared, and bit 254 is the highest one that is set
  have hmod := Nat.mod_lt (Bytes.toNatLE secret.toList) (show 0 < Nat.pow 2 254 by decide)
  have hdiv := Nat.div_mul_le_self (Bytes.toNatLE secret.toList % Nat.pow 2 254) 8
  have hpow : Nat.pow 2 254 + Nat.pow 2 254 = 2 ^ 255 := by decide
  rw [scalar]
  omega

theorem coordinate_lt (u : Octets 32) : coordinate u < prime := Nat.mod_lt _ prime_pos

/-- A reduced coordinate is read back from its bytes. -/
theorem coordinate_ofNatLE {n : ℕ} (hn : n < prime) : coordinate (Octets.ofNatLE 32 n) = n := by
  have hbits : n < Nat.pow 2 255 := hn.trans prime_lt
  have hbytes : n < 256 ^ 32 := hbits.trans (by decide)
  rw [coordinate, Octets.ofNatLE, Bytes.toNatLE_ofNatLE, Nat.mod_eq_of_lt hbytes,
    Nat.mod_eq_of_lt hbits, Nat.mod_eq_of_lt hn]

/-- The second coordinate of the generator. -/
def generatorY : ℕ := 14781619447589544791020593568409986887264606134616475288964881837755586237401

theorem generator_nonsingular :
    curve25519.Nonsingular ((9 : ℕ) : Field25519) (generatorY : Field25519) := by
  have hequation : (generatorY : Field25519) ^ 2 =
      ((9 : ℕ) : Field25519) ^ 3 + 486662 * ((9 : ℕ) : Field25519) ^ 2 +
        ((9 : ℕ) : Field25519) := by
    rw [← Nat.cast_pow, show ((9 : ℕ) : Field25519) ^ 3 + 486662 * ((9 : ℕ) : Field25519) ^ 2 +
      ((9 : ℕ) : Field25519) = ((9 ^ 3 + 486662 * 9 ^ 2 + 9 : ℕ) : Field25519) by push_cast; rfl,
      ZMod.natCast_eq_natCast_iff']
    decide +kernel
  have hy : (generatorY : Field25519) ≠ 0 := by
    rw [Ne, ZMod.natCast_eq_zero_iff]
    decide +kernel
  refine (nonsingular_iff _ _).mpr ⟨Montgomery.equation_iff.mpr hequation, .inr fun h => ?_⟩
  have hdouble : 2 * (generatorY : Field25519) = 0 := by
    simp only [Montgomery.curve] at h
    linear_combination h
  exact mul_ne_zero two_ne_zero' hy hdouble

/-- The point that generates the group. -/
noncomputable def generatorPoint : curve25519.Point := .some _ _ generator_nonsingular

theorem coordinate_publicKey (secret : Octets 32) :
    (coordinate (publicKey secret) : Field25519) =
      coordinateOf (scalar secret • generatorPoint) := by
  rw [publicKey, exchange, coordinate_ofNatLE (multiple_lt _ _), generator,
    coordinate_ofNatLE (by decide)]
  exact multiple_coordinateOf (by decide) rfl (scalar_lt secret)

theorem cast_multiple_publicKey (a b : Octets 32) :
    (multiple (scalar a) (coordinate (publicKey b)) : Field25519) =
      coordinateOf ((scalar a * scalar b) • generatorPoint) := by
  rw [mul_comm, mul_nsmul]
  exact multiple_coordinateOf (coordinate_lt _) (coordinate_publicKey b) (scalar_lt a)

/-- **Agreement**: either side of an exchange finds the same secret. -/
theorem exchange_publicKey (a b : Octets 32) :
    exchange a (publicKey b) = exchange b (publicKey a) := by
  -- the coordinates agree in the field, and both are reduced
  have hcast : (multiple (scalar a) (coordinate (publicKey b)) : Field25519) =
      multiple (scalar b) (coordinate (publicKey a)) := by
    rw [cast_multiple_publicKey, cast_multiple_publicKey, mul_comm]
  rw [ZMod.natCast_eq_natCast_iff', Nat.mod_eq_of_lt (multiple_lt _ _),
    Nat.mod_eq_of_lt (multiple_lt _ _)] at hcast
  rw [exchange, exchange, hcast]

end QuorumVault.X25519
