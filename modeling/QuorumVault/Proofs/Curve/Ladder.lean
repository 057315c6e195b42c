import Mathlib.AlgebraicGeometry.EllipticCurve.Affine.Point
import Mathlib.Tactic

/-!
# Arithmetic on the coordinates of a Montgomery curve

The x-coordinates of the points of `y² = x³ + Ax² + x`, as fractions. From the coordinate of a point
one finds that of its double (`Represents.double`), and from the coordinates of two points and that
of their difference one finds that of their sum (`Represents.add`).

The second coefficient is not two or minus two, and two is not zero, so that the curve has no
singular points.
-/

namespace QuorumVault.Montgomery

open WeierstrassCurve.Affine

variable {F : Type} [Field F] {a x z : F}

/-- The curve `y² = x³ + ax² + x`. -/
def curve (a : F) : WeierstrassCurve.Affine F := ⟨0, a, 0, 1, 0⟩

theorem equation_iff {x y : F} : (curve a).Equation x y ↔ y ^ 2 = x ^ 3 + a * x ^ 2 + x := by
  rw [WeierstrassCurve.Affine.equation_iff]
  simp [curve]

@[simp] theorem negY_eq (x y : F) : (curve a).negY x y = -y := by
  simp [curve, WeierstrassCurve.Affine.negY]

@[simp] theorem addX_eq (x₁ x₂ l : F) : (curve a).addX x₁ x₂ l = l ^ 2 - a - x₁ - x₂ := by
  simp [curve, WeierstrassCurve.Affine.addX]

/-- The x-coordinate of a point is a fraction; the point at infinity has the denominator zero. -/
def Represents (x z : F) : (curve a).Point → Prop
  | .zero => x ≠ 0 ∧ z = 0
  | .some u _ _ => z ≠ 0 ∧ x = u * z

/-- The x-coordinate of a point, and zero for the point at infinity. -/
def coordinateOf : (curve a).Point → F
  | .zero => 0
  | .some u _ _ => u

theorem Represents.mul_inv {p : (curve a).Point} (h : Represents x z p) :
    x * z⁻¹ = coordinateOf p := by
  cases p with
  | zero => rw [h.2, inv_zero, mul_zero]; rfl
  | some u v hp => rw [h.2, mul_assoc, mul_inv_cancel₀ h.1, mul_one]; rfl

theorem represents_neg_iff {p : (curve a).Point} : Represents x z (-p) ↔ Represents x z p := by
  cases p with
  | zero => rfl
  | some u v hp => rfl

theorem four_ne_zero' (h2 : (2 : F) ≠ 0) : (4 : F) ≠ 0 := by
  rw [show (4 : F) = 2 * 2 by norm_num]
  exact mul_ne_zero h2 h2

theorem ne_negY (h2 : (2 : F) ≠ 0) {u v : F} (hv : v ≠ 0) : v ≠ (curve a).negY u v := by
  intro h
  rw [negY_eq, eq_neg_iff_add_eq_zero, ← two_mul] at h
  exact mul_ne_zero h2 hv h

/-- One and minus one are no roots of the right side of the equation. -/
theorem sq_ne_one {u : F} (ha : a ^ 2 ≠ 4) (hroot : u ^ 3 + a * u ^ 2 + u = 0) : u ^ 2 ≠ 1 := by
  intro hu
  have hsum : a + 2 * u = 0 := by linear_combination hroot - (u + a) * hu
  exact ha (by linear_combination (a - 2 * u) * hsum + 4 * hu)

/-- The coordinates of the sum and of the difference of two points with different coordinates. -/
theorem sum_mul_difference {x₁ x₂ y₁ y₂ s d : F} (h₁ : y₁ ^ 2 = x₁ ^ 3 + a * x₁ ^ 2 + x₁)
    (h₂ : y₂ ^ 2 = x₂ ^ 3 + a * x₂ ^ 2 + x₂) (hne : x₁ ≠ x₂)
    (hs : s = ((y₁ - y₂) / (x₁ - x₂)) ^ 2 - a - x₁ - x₂)
    (hd : d = ((y₂ + y₁) / (x₂ - x₁)) ^ 2 - a - x₂ - x₁) :
    s * d * (x₁ - x₂) ^ 2 = (x₁ * x₂ - 1) ^ 2 := by
  have hpos : (x₁ - x₂) ^ 2 ≠ 0 := pow_ne_zero 2 (sub_ne_zero.mpr hne)
  have hs' : s * (x₁ - x₂) ^ 2 = (y₁ - y₂) ^ 2 - (a + x₁ + x₂) * (x₁ - x₂) ^ 2 := by
    rw [hs, div_pow]
    field_simp
    ring
  have hd' : d * (x₁ - x₂) ^ 2 = (y₁ + y₂) ^ 2 - (a + x₁ + x₂) * (x₁ - x₂) ^ 2 := by
    rw [hd, div_pow, show (x₂ - x₁) ^ 2 = (x₁ - x₂) ^ 2 by ring]
    field_simp
    ring
  -- the second coordinates occur only in squares, which the equation of the curve takes away
  refine mul_right_cancel₀ hpos ?_
  calc s * d * (x₁ - x₂) ^ 2 * (x₁ - x₂) ^ 2
      = (s * (x₁ - x₂) ^ 2) * (d * (x₁ - x₂) ^ 2) := by ring
    _ = (y₁ ^ 2 - y₂ ^ 2) ^ 2 - 2 * (y₁ ^ 2 + y₂ ^ 2) * (a + x₁ + x₂) * (x₁ - x₂) ^ 2 +
          (a + x₁ + x₂) ^ 2 * (x₁ - x₂) ^ 4 := by
        rw [hs', hd']
        ring
    _ = (x₁ * x₂ - 1) ^ 2 * (x₁ - x₂) ^ 2 := by
        rw [h₁, h₂]
        ring

variable [DecidableEq F]

/-! ### Doubling -/

/-- The slope of the tangent at a point that is not its own opposite. -/
theorem slope_sq_mul (h2 : (2 : F) ≠ 0) {u v : F} (hv : v ≠ 0) :
    ((curve a).slope u u v v) ^ 2 * (4 * v ^ 2) = (3 * u ^ 2 + 2 * a * u + 1) ^ 2 := by
  have hsum : v + v ≠ 0 := by
    rw [← two_mul]
    exact mul_ne_zero h2 hv
  rw [slope_of_Y_ne rfl (ne_negY h2 hv), negY_eq, sub_neg_eq_add, div_pow,
    show 4 * v ^ 2 = (v + v) ^ 2 by ring, div_mul_cancel₀ _ (pow_ne_zero 2 hsum)]
  simp [curve]

/-- The coordinate of the double of a point. -/
theorem Represents.double (h2 : (2 : F) ≠ 0) (ha : a ^ 2 ≠ 4) {p : (curve a).Point}
    (h : Represents x z p) :
    Represents ((x ^ 2 - z ^ 2) ^ 2) (4 * x * z * (x ^ 2 + a * x * z + z ^ 2)) (p + p) := by
  cases p with
  | zero =>
    obtain ⟨hx, rfl⟩ := h
    exact ⟨by simpa using hx, by ring⟩
  | some u v hp =>
    obtain ⟨hz, rfl⟩ := h
    have heq := equation_iff.mp hp.1
    have hdenominator : 4 * (u * z) * z * ((u * z) ^ 2 + a * (u * z) * z + z ^ 2) =
        4 * z ^ 4 * v ^ 2 := by
      rw [heq]
      ring
    rw [hdenominator]
    by_cases hv : v = 0
    · -- a point on the axis is its own opposite
      have hzero : Point.some u v hp + Point.some u v hp = .zero :=
        Point.add_of_Y_eq rfl (by rw [negY_eq, hv, neg_zero])
      have hroot : u ^ 3 + a * u ^ 2 + u = 0 := by
        rw [← heq, hv]
        ring
      rw [hzero]
      refine ⟨?_, by rw [hv]; ring⟩
      rw [show (u * z) ^ 2 - z ^ 2 = (u ^ 2 - 1) * z ^ 2 by ring]
      exact pow_ne_zero 2 (mul_ne_zero (sub_ne_zero.mpr (sq_ne_one ha hroot)) (pow_ne_zero 2 hz))
    · rw [Point.add_self_of_Y_ne (ne_negY h2 hv)]
      refine
        ⟨mul_ne_zero (mul_ne_zero (four_ne_zero' h2) (pow_ne_zero 4 hz)) (pow_ne_zero 2 hv), ?_⟩
      rw [addX_eq]
      linear_combination 4 * z ^ 4 * (a + 2 * u) * heq - z ^ 4 * slope_sq_mul h2 hv (u := u)

/-- Where the square of the coordinate is one, the double of the point has the coordinate zero. -/
theorem sq_ne_one_of_double (h2 : (2 : F) ≠ 0) (ha : a ^ 2 ≠ 4) {x y u v : F}
    {hp : (curve a).Nonsingular x y} {hd : (curve a).Nonsingular u v} (hu : u ≠ 0)
    (hdouble : Point.some x y hp + Point.some x y hp = -Point.some u v hd) : x ^ 2 ≠ 1 := by
  intro hx
  -- then the doubling formula gives the coordinate zero to the double
  have h : Represents x 1 (Point.some x y hp) := ⟨one_ne_zero, (mul_one x).symm⟩
  have h := h.double h2 ha
  rw [hdouble, represents_neg_iff, hx, one_pow, sub_self] at h
  obtain ⟨hz, hzero⟩ := h
  exact mul_ne_zero hu hz (by rw [← hzero]; ring)

/-! ### Addition with a known difference -/

/-- Two points with one coordinate and a difference are opposite, and their sum is at infinity. -/
theorem represents_add_of_eq (h2 : (2 : F) ≠ 0) (ha : a ^ 2 ≠ 4) {x₁ x₂ y₁ y₂ u v z' : F}
    {h₁ : (curve a).Nonsingular x₁ y₁} {h₂ : (curve a).Nonsingular x₂ y₂}
    {hd : (curve a).Nonsingular u v}
    (hdiff : Point.some x₂ y₂ h₂ - Point.some x₁ y₁ h₁ = .some u v hd) (hu : u ≠ 0) (hx : x₁ = x₂)
    (hz : z ≠ 0) (hz' : z' ≠ 0) :
    Represents (4 * (x₁ * z * (x₂ * z') - z * z') ^ 2) (4 * u * ((x₂ - x₁) * (z * z')) ^ 2)
      (Point.some x₁ y₁ h₁ + Point.some x₂ y₂ h₂) := by
  have hopposite : Point.some x₂ y₂ h₂ = -Point.some x₁ y₁ h₁ := by
    rcases Point.X_eq_iff.mp hx.symm with h | h
    · rw [h, sub_self] at hdiff
      exact absurd hdiff.symm (Point.some_ne_zero hd)
    · exact h
  rw [hopposite, add_neg_cancel, hx, sub_self, zero_mul]
  refine ⟨mul_ne_zero (four_ne_zero' h2) (pow_ne_zero 2 ?_), by ring⟩
  -- the difference is the opposite of a double, whose coordinate is not zero
  rw [hopposite] at hdiff
  have hdouble : Point.some x₁ y₁ h₁ + Point.some x₁ y₁ h₁ = -.some u v hd := by
    rw [← hdiff]
    abel
  have hsq := sq_ne_one_of_double h2 ha hu hdouble
  rw [show x₂ * z * (x₂ * z') - z * z' = (x₂ ^ 2 - 1) * (z * z') by ring]
  exact mul_ne_zero (sub_ne_zero.mpr (hx ▸ hsq)) (mul_ne_zero hz hz')

/-- Two points with different coordinates: both the sum and the difference lie on lines with a
slope. -/
theorem represents_add_of_ne (h2 : (2 : F) ≠ 0) {x₁ x₂ y₁ y₂ u v z' : F}
    {h₁ : (curve a).Nonsingular x₁ y₁} {h₂ : (curve a).Nonsingular x₂ y₂}
    {hd : (curve a).Nonsingular u v}
    (hdiff : Point.some x₂ y₂ h₂ - Point.some x₁ y₁ h₁ = .some u v hd) (hu : u ≠ 0) (hx : x₁ ≠ x₂)
    (hz : z ≠ 0) (hz' : z' ≠ 0) :
    Represents (4 * (x₁ * z * (x₂ * z') - z * z') ^ 2) (4 * u * ((x₂ - x₁) * (z * z')) ^ 2)
      (Point.some x₁ y₁ h₁ + Point.some x₂ y₂ h₂) := by
  have hx' : x₂ - x₁ ≠ 0 := sub_ne_zero.mpr (Ne.symm hx)
  rw [sub_eq_add_neg, Point.neg_some, Point.add_of_X_ne (Ne.symm hx), Point.some.injEq,
    addX_eq, slope_of_X_ne (Ne.symm hx), negY_eq, sub_neg_eq_add] at hdiff
  have hnum := sum_mul_difference (equation_iff.mp h₁.1) (equation_iff.mp h₂.1) hx rfl
    hdiff.1.symm
  rw [Point.add_of_X_ne hx]
  refine ⟨mul_ne_zero (mul_ne_zero (four_ne_zero' h2) hu)
    (pow_ne_zero 2 (mul_ne_zero hx' (mul_ne_zero hz hz'))), ?_⟩
  rw [addX_eq, slope_of_X_ne hx]
  linear_combination -4 * (z * z') ^ 2 * hnum

/-- The coordinate of the sum of two points, from that of their difference. -/
theorem Represents.add (h2 : (2 : F) ≠ 0) (ha : a ^ 2 ≠ 4) {p q : (curve a).Point} {x' z' u v : F}
    {hd : (curve a).Nonsingular u v} (hdiff : q - p = .some u v hd) (hu : u ≠ 0)
    (hp : Represents x z p) (hq : Represents x' z' q) :
    Represents (4 * (x * x' - z * z') ^ 2) (4 * u * (x' * z - z' * x) ^ 2) (p + q) := by
  have h4 := four_ne_zero' h2
  cases p with
  | zero =>
    -- the second point is the difference
    obtain ⟨hx, rfl⟩ := hp
    obtain rfl : q = .some u v hd := by rw [← hdiff]; exact (sub_zero q).symm
    obtain ⟨hz', rfl⟩ := hq
    rw [← Point.zero_def, zero_add]
    refine ⟨?_, by ring⟩
    rw [mul_zero, zero_sub]
    exact mul_ne_zero (mul_ne_zero h4 hu) (pow_ne_zero 2 (neg_ne_zero.mpr (mul_ne_zero hz' hx)))
  | some x₁ y₁ h₁ =>
    cases q with
    | zero =>
      -- the first point is the opposite of the difference, and has the same coordinate
      obtain ⟨hx', rfl⟩ := hq
      rw [← Point.zero_def, zero_sub] at hdiff
      rw [← represents_neg_iff, hdiff] at hp
      rw [← Point.zero_def, add_zero, ← represents_neg_iff, hdiff]
      obtain ⟨hz, rfl⟩ := hp
      refine ⟨?_, by ring⟩
      rw [zero_mul, sub_zero]
      exact mul_ne_zero (mul_ne_zero h4 hu) (pow_ne_zero 2 (mul_ne_zero hx' hz))
    | some x₂ y₂ h₂ =>
      obtain ⟨hz, rfl⟩ := hp
      obtain ⟨hz', rfl⟩ := hq
      rw [show x₂ * z' * z - z' * (x₁ * z) = (x₂ - x₁) * (z * z') by ring]
      by_cases hx : x₁ = x₂
      · exact represents_add_of_eq h2 ha hdiff hu hx hz hz'
      · exact represents_add_of_ne h2 hdiff hu hx hz hz'

end QuorumVault.Montgomery
