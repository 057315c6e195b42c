import Mathlib.LinearAlgebra.Lagrange
import Mathlib.Probability.Distributions.Uniform
import Mathlib.Tactic
import QuorumVault.Proofs.Sharing.Interpolation
import QuorumVault.Proofs.Sharing.Threshold

/-!
# Fewer shares than the threshold say nothing about the secret

Whoever holds fewer shares than the threshold (`heldBy`) sees the same, with the same probability,
whatever secret of a given length is split (`split_hides`).

A `mask` is a polynomial with a given value at zero that vanishes at given points.  The polynomials
of one secret become those of another one when masks for the differences of their bytes are added,
and at the given points they keep their values (`hidingPolynomial_masking`).  Adding the masks is a
translation of what the dealer draws (`Draws.masking`), so it is one-to-one; if one share is missing
from the threshold, then no other draws give the same shares (`Draws.eq_masking`).
-/

namespace QuorumVault.Sharing

open Polynomial

/-! ### Draws -/

/-- What a dealer draws: for each place of the secret a coefficient for each degree from one on
below the threshold. -/
abbrev Draws (length threshold : ℕ) := Fin length → Fin (threshold - 1) → Gf256

namespace Draws

variable {length threshold : ℕ}

/-- The coefficients that have been drawn, and zero where none is. -/
def coefficients (draws : Draws length threshold) : Coefficients
  | _, 0 => 0
  | place, degree + 1 =>
    if h : place < length ∧ degree < threshold - 1 then draws ⟨place, h.1⟩ ⟨degree, h.2⟩ else 0

/-- Those of the coefficients that are used. -/
def ofCoefficients (coefficients : Coefficients) : Draws length threshold :=
  fun place degree => coefficients place (degree + 1)

theorem coefficients_succ (draws : Draws length threshold) (place : Fin length)
    (degree : Fin (threshold - 1)) :
    draws.coefficients place (degree + 1) = draws place degree :=
  dif_pos ⟨place.isLt, degree.isLt⟩

end Draws

/-- A splitting uses no coefficients but those that are drawn. -/
theorem split_ofCoefficients (secret : Bytes) (count threshold : UInt8)
    (coefficients : Coefficients) :
    split secret count threshold
        (.ofCoefficients coefficients : Draws secret.length threshold.toNat).coefficients =
      split secret count threshold coefficients := by
  have hpolynomials : polynomials threshold.toNat secret
      (.ofCoefficients coefficients : Draws secret.length threshold.toNat).coefficients =
      polynomials threshold.toNat secret coefficients := by
    refine List.ext_getElem (by simp) fun place hplace _ => ?_
    have hplace : place < secret.length := by simpa using hplace
    simp only [polynomials, List.getElem_mapIdx, polynomial]
    refine congrArg _ (List.map_congr_left fun i hi => ?_)
    exact Draws.coefficients_succ _ ⟨place, hplace⟩ ⟨i, List.mem_range.mp hi⟩
  simp only [split, hpolynomials]

/-! ### Masks -/

/-- A polynomial that has a value at zero and vanishes at points that are not zero. -/
noncomputable def mask (points : Finset Gf256) (value : Gf256) : Gf256[X] :=
  C value * Lagrange.basis (insert 0 points) id 0

theorem eval_mask_zero (points : Finset Gf256) (value : Gf256) :
    (mask points value).eval 0 = value := by
  have hbasis : (Lagrange.basis (insert 0 points) id 0).eval 0 = (1 : Gf256) :=
    Lagrange.eval_basis_self (Set.injOn_id _) (Finset.mem_insert_self 0 points)
  rw [mask, eval_mul, eval_C, hbasis, mul_one]

theorem eval_mask_of_mem {points : Finset Gf256} (hzero : 0 ∉ points) (value : Gf256) {x : Gf256}
    (hx : x ∈ points) : (mask points value).eval x = 0 := by
  have hne : (0 : Gf256) ≠ x := fun h => hzero (h ▸ hx)
  have hbasis : (Lagrange.basis (insert 0 points) id 0).eval x = 0 :=
    Lagrange.eval_basis_of_ne (v := id) hne (Finset.mem_insert_of_mem hx)
  rw [mask, eval_mul, hbasis, mul_zero]

theorem degree_mask_le {points : Finset Gf256} (hzero : 0 ∉ points) (value : Gf256) :
    (mask points value).degree ≤ points.card := by
  have hbasis := Lagrange.degree_basis (Set.injOn_id _) (Finset.mem_insert_self 0 points)
  rw [Finset.card_insert_of_notMem hzero, Nat.add_sub_cancel] at hbasis
  calc (mask points value).degree ≤ 0 + points.card := by
        rw [mask, degree_mul, hbasis]
        exact add_le_add_left degree_C_le _
    _ = points.card := zero_add _

/-! ### Coefficients of the polynomials that hide a secret -/

section Coefficients

variable (threshold : ℕ) (secret : Bytes) (coefficients : Coefficients) (place : ℕ)

theorem coeff_hidingPolynomial_zero :
    (hidingPolynomial threshold secret coefficients place).coeff 0 =
      Gf256.ofByte (secret.getD place 0) := by
  rw [coeff_zero_eq_eval_zero, eval_hidingPolynomial_zero]

theorem coeff_hidingPolynomial_succ {degree : ℕ} (hdegree : degree < threshold - 1) :
    (hidingPolynomial threshold secret coefficients place).coeff (degree + 1) =
      coefficients place (degree + 1) := by
  rw [hidingPolynomial, coeff_toPolynomial]
  simp [polynomial, List.getD_eq_getElem?_getD, hdegree]

end Coefficients

/-! ### Other draws with the same values -/

/-- The points at which shares have their values. -/
def pointsOf (indices : Finset UInt8) : Finset Gf256 := indices.image Gf256.ofByte

theorem card_pointsOf (indices : Finset UInt8) : (pointsOf indices).card = indices.card :=
  Finset.card_image_of_injective indices Gf256.ofByte_injective

theorem zero_notMem_pointsOf {indices : Finset UInt8} (hindices : 0 ∉ indices) :
    0 ∉ pointsOf indices := by
  intro h
  obtain ⟨index, hindex, hzero⟩ := Finset.mem_image.mp h
  obtain rfl : index = 0 := Gf256.ofByte_injective hzero
  exact hindices hindex

/-- The mask for the difference of two secrets at a place. -/
noncomputable def differenceMask (indices : Finset UInt8) (secret secret' : Bytes) (place : ℕ) :
    Gf256[X] :=
  mask (pointsOf indices)
    (Gf256.ofByte (secret.getD place 0) + Gf256.ofByte (secret'.getD place 0))

namespace Draws

variable {length threshold : ℕ}

/-- Adds to the draws for one secret the coefficients of the masks for another secret. -/
noncomputable def masking (indices : Finset UInt8) (secret secret' : Bytes) :
    Draws length threshold ≃ Draws length threshold :=
  Equiv.addRight fun place degree =>
    (differenceMask indices secret secret' place).coeff (degree + 1)

theorem coefficients_masking (indices : Finset UInt8) (secret secret' : Bytes)
    (draws : Draws length threshold) (place : Fin length) (degree : Fin (threshold - 1)) :
    (masking indices secret secret' draws).coefficients place (degree + 1) =
      draws.coefficients place (degree + 1) +
        (differenceMask indices secret secret' place).coeff (degree + 1) := by
  rw [coefficients_succ, coefficients_succ]
  rfl

end Draws

section Masking

variable {threshold : ℕ} {indices : Finset UInt8} {secret secret' : Bytes}

/-- The polynomials that hide the other secret are those that hide the one, with the masks added. -/
theorem hidingPolynomial_masking (hindices : 0 ∉ indices) (hfew : indices.card < threshold)
    (draws : Draws secret.length threshold) {place : ℕ} (hplace : place < secret.length) :
    hidingPolynomial threshold secret' (Draws.masking indices secret secret' draws).coefficients
        place =
      hidingPolynomial threshold secret draws.coefficients place +
        differenceMask indices secret secret' place := by
  have hthreshold : threshold ≠ 0 := by omega
  refine Polynomial.ext fun degree => ?_
  rw [coeff_add]
  rcases degree with - | degree
  · -- the difference is added at degree zero
    rw [coeff_hidingPolynomial_zero, coeff_hidingPolynomial_zero, differenceMask,
      coeff_zero_eq_eval_zero, eval_mask_zero, ← add_assoc, Gf256.add_self_eq_zero, zero_add]
  by_cases hdegree : degree < threshold - 1
  · rw [coeff_hidingPolynomial_succ _ _ _ _ hdegree, coeff_hidingPolynomial_succ _ _ _ _ hdegree]
    exact Draws.coefficients_masking indices secret secret' draws ⟨place, hplace⟩ ⟨degree, hdegree⟩
  · -- beyond the threshold there are no coefficients
    have hle : (threshold : WithBot ℕ) ≤ ((degree + 1 : ℕ) : WithBot ℕ) :=
      Nat.cast_le.mpr (by omega)
    have hcard : (indices.card : WithBot ℕ) < ((degree + 1 : ℕ) : WithBot ℕ) :=
      Nat.cast_lt.mpr (by omega)
    have hmask : (differenceMask indices secret secret' place).degree ≤ indices.card := by
      rw [← card_pointsOf]
      exact degree_mask_le (zero_notMem_pointsOf hindices) _
    rw [coeff_eq_zero_of_degree_lt
        ((degree_hidingPolynomial_lt hthreshold _ _ _).trans_le hle),
      coeff_eq_zero_of_degree_lt ((degree_hidingPolynomial_lt hthreshold _ _ _).trans_le hle),
      coeff_eq_zero_of_degree_lt (hmask.trans_lt hcard), add_zero]

/-- At the given points the polynomials have the same values. -/
theorem eval_masking (hindices : 0 ∉ indices) (hfew : indices.card < threshold)
    (draws : Draws secret.length threshold) {place : ℕ} (hplace : place < secret.length)
    {index : UInt8} (hindex : index ∈ indices) :
    (hidingPolynomial threshold secret' (Draws.masking indices secret secret' draws).coefficients
        place).eval (Gf256.ofByte index) =
      (hidingPolynomial threshold secret draws.coefficients place).eval (Gf256.ofByte index) := by
  have hmask : (differenceMask indices secret secret' place).eval (Gf256.ofByte index) = 0 :=
    eval_mask_of_mem (zero_notMem_pointsOf hindices) _ (Finset.mem_image_of_mem _ hindex)
  rw [hidingPolynomial_masking hindices hfew draws hplace, eval_add, hmask, add_zero]

/-- If one share is missing from the threshold, then no other draws give these values. -/
theorem Draws.eq_masking (hindices : 0 ∉ indices) (hmissing : indices.card + 1 = threshold)
    {draws draws' : Draws secret.length threshold}
    (heval : ∀ index ∈ indices, ∀ place < secret.length,
      (hidingPolynomial threshold secret' draws'.coefficients place).eval (Gf256.ofByte index) =
        (hidingPolynomial threshold secret draws.coefficients place).eval (Gf256.ofByte index)) :
    draws' = masking indices secret secret' draws := by
  have hthreshold : threshold ≠ 0 := by omega
  have hcard : (insert 0 (pointsOf indices)).card = threshold := by
    rw [Finset.card_insert_of_notMem (zero_notMem_pointsOf hindices), card_pointsOf, hmissing]
  funext place degree
  -- the polynomials agree at zero and at the points, which are as many as their degree allows
  have heq : hidingPolynomial threshold secret' draws'.coefficients place =
      hidingPolynomial threshold secret' (masking indices secret secret' draws).coefficients
        place := by
    refine eq_of_degrees_lt_of_eval_finset_eq (insert 0 (pointsOf indices)) ?_ ?_ fun x hx => ?_
    · rw [hcard]
      exact degree_hidingPolynomial_lt hthreshold _ _ _
    · rw [hcard]
      exact degree_hidingPolynomial_lt hthreshold _ _ _
    · rcases Finset.mem_insert.mp hx with rfl | hx
      · rw [eval_hidingPolynomial_zero, eval_hidingPolynomial_zero]
      · obtain ⟨index, hindex, rfl⟩ := Finset.mem_image.mp hx
        rw [heval index hindex place place.isLt,
          eval_masking hindices (by omega) draws place.isLt hindex]
  have hcoeff := congrArg (fun f => f.coeff (degree + 1)) heq
  rwa [coeff_hidingPolynomial_succ _ _ _ _ degree.isLt,
    coeff_hidingPolynomial_succ _ _ _ _ degree.isLt, coefficients_succ, coefficients_succ] at hcoeff

end Masking

/-! ### Shares of some indices -/

/-- The shares with the given indices, if there has been a splitting. -/
def heldBy (indices : Finset UInt8) (result : Except CryptoFault (List Share)) :
    Except CryptoFault (List Share) :=
  result.map fun dealt => dealt.filter fun share => share.index ∈ indices

/-- Those of the given indices for which there are shares. -/
def heldIndices (count : UInt8) (indices : Finset UInt8) : List UInt8 :=
  (dealtIndices count).filter (· ∈ indices)

section Held

variable {count threshold : UInt8} {indices : Finset UInt8} {secret secret' : Bytes}
  {coefficients coefficients' : Coefficients}

theorem mem_heldIndices (hindices : ∀ index ∈ indices, index ≠ 0 ∧ index ≤ count)
    {index : UInt8} : index ∈ heldIndices count indices ↔ index ∈ indices := by
  rw [heldIndices, List.mem_filter, mem_dealtIndices, decide_eq_true_iff]
  exact ⟨fun h => h.2, fun h => ⟨hindices index h, h⟩⟩

theorem heldBy_split (hsecret : secret ≠ []) (hlow : 2 ≤ threshold) (hhigh : threshold ≤ count) :
    heldBy indices (split secret count threshold coefficients) =
      .ok ((heldIndices count indices).map
        (shareAt (polynomials threshold.toNat secret coefficients))) := by
  rw [split_eq_ok_iff.mpr ⟨hsecret, hlow, hhigh, rfl⟩]
  exact congrArg Except.ok List.filter_map

theorem shareAt_eq_iff {threshold : ℕ} (hlength : secret'.length = secret.length) (index : UInt8) :
    shareAt (polynomials threshold secret' coefficients') index =
        shareAt (polynomials threshold secret coefficients) index ↔
      ∀ place < secret.length,
        (hidingPolynomial threshold secret' coefficients' place).eval (Gf256.ofByte index) =
          (hidingPolynomial threshold secret coefficients place).eval (Gf256.ofByte index) := by
  constructor
  · intro h place hplace
    rw [← valueAt_shareAt _ _ _ _ hplace, ← valueAt_shareAt _ _ _ _ (hlength ▸ hplace), h]
  · intro h
    refine congrArg (Share.mk index) (List.ext_getElem (by simp [hlength]) fun place hplace _ => ?_)
    have hplace' : place < secret'.length := by simpa using hplace
    have hplace : place < secret.length := hlength ▸ hplace'
    have heval := congrArg Gf256.toByte (h place hplace)
    simpa [hidingPolynomial, polynomials, hplace, hplace', List.getD_eq_getElem?_getD] using heval

/-- Two splittings give the same shares with the given indices iff the values of the polynomials are
the same. -/
theorem heldBy_split_eq_iff (hlow : 2 ≤ threshold) (hhigh : threshold ≤ count)
    (hindices : ∀ index ∈ indices, index ≠ 0 ∧ index ≤ count)
    (hlength : secret'.length = secret.length) :
    heldBy indices (split secret' count threshold coefficients') =
        heldBy indices (split secret count threshold coefficients) ↔
      ∀ index ∈ indices, ∀ place < secret.length,
        (hidingPolynomial threshold.toNat secret' coefficients' place).eval (Gf256.ofByte index) =
          (hidingPolynomial threshold.toNat secret coefficients place).eval
            (Gf256.ofByte index) := by
  simp only [← shareAt_eq_iff hlength]
  by_cases hsecret : secret = []
  · -- neither secret is split
    subst hsecret
    obtain rfl : secret' = [] := List.eq_nil_of_length_eq_zero hlength
    exact iff_of_true rfl fun _ _ => rfl
  have hsecret' : secret' ≠ [] := by
    rintro rfl
    exact hsecret (List.eq_nil_of_length_eq_zero hlength.symm)
  rw [heldBy_split hsecret hlow hhigh, heldBy_split hsecret' hlow hhigh, Except.ok.injEq,
    List.map_inj_left]
  simp only [mem_heldIndices hindices]

/-- With the masks added the draws for the other secret give the same shares. -/
theorem heldBy_split_masking (hlow : 2 ≤ threshold) (hhigh : threshold ≤ count)
    (hindices : ∀ index ∈ indices, index ≠ 0 ∧ index ≤ count)
    (hfew : indices.card < threshold.toNat) (hlength : secret'.length = secret.length)
    (draws : Draws secret.length threshold.toNat) :
    heldBy indices (split secret' count threshold
        (Draws.masking indices secret secret' draws).coefficients) =
      heldBy indices (split secret count threshold draws.coefficients) := by
  have hzero : 0 ∉ indices := fun h => (hindices 0 h).1 rfl
  refine (heldBy_split_eq_iff hlow hhigh hindices hlength).mpr ?_
  intro index hindex place hplace
  exact eval_masking hzero hfew draws hplace hindex

/-- If one share is missing from the threshold, then only these draws do. -/
theorem heldBy_split_eq_iff_masking (hlow : 2 ≤ threshold) (hhigh : threshold ≤ count)
    (hindices : ∀ index ∈ indices, index ≠ 0 ∧ index ≤ count)
    (hmissing : indices.card + 1 = threshold.toNat) (hlength : secret'.length = secret.length)
    (draws draws' : Draws secret.length threshold.toNat) :
    heldBy indices (split secret' count threshold draws'.coefficients) =
        heldBy indices (split secret count threshold draws.coefficients) ↔
      draws' = Draws.masking indices secret secret' draws := by
  have hzero : 0 ∉ indices := fun h => (hindices 0 h).1 rfl
  constructor
  · intro h
    exact Draws.eq_masking hzero hmissing ((heldBy_split_eq_iff hlow hhigh hindices hlength).mp h)
  · rintro rfl
    exact heldBy_split_masking hlow hhigh hindices (by omega) hlength draws

end Held

/-! ### Distributions -/

/-- Uniform draws stay uniform under a one-to-one map. -/
theorem map_uniformOfFintype {α : Type} [Fintype α] [Nonempty α] (e : α ≃ α) :
    (PMF.uniformOfFintype α).map e = PMF.uniformOfFintype α := by
  refine PMF.ext fun a => ?_
  rw [PMF.map_apply, tsum_eq_single (e.symm a)]
  · rw [if_pos (e.apply_symm_apply a).symm, PMF.uniformOfFintype_apply, PMF.uniformOfFintype_apply]
  · intro b hb
    rw [if_neg]
    rintro rfl
    exact hb (e.symm_apply_apply b).symm

/-- **Secrecy below the threshold.**  Take two secrets of one length and some of the indices of
shares, fewer than the threshold.  The holders of these shares do hold one for each of their
indices, but whatever the coefficients are with which one of the secrets is split, there are some
with which the other one gives the same shares; if one share is missing from the threshold, then the
draws for the one secret and those for the other correspond one-to-one.  Hence with uniform draws
the shares have the same distribution for both secrets. -/
theorem split_hides {count threshold : UInt8} (hlow : 2 ≤ threshold) (hhigh : threshold ≤ count)
    {indices : Finset UInt8} (hindices : ∀ index ∈ indices, index ≠ 0 ∧ index ≤ count)
    (hfew : indices.card < threshold.toNat) {secret secret' : Bytes}
    (hlength : secret'.length = secret.length) :
    (secret ≠ [] → ∀ coefficients, ∃ shares,
      heldBy indices (split secret count threshold coefficients) = .ok shares ∧
        (shares.map Share.index).Nodup ∧
          ∀ index, index ∈ shares.map Share.index ↔ index ∈ indices) ∧
    (∀ coefficients, ∃ coefficients',
      heldBy indices (split secret' count threshold coefficients') =
        heldBy indices (split secret count threshold coefficients)) ∧
    (indices.card + 1 = threshold.toNat →
      ∃ φ : Draws secret.length threshold.toNat ≃ Draws secret.length threshold.toNat,
        ∀ draws draws', heldBy indices (split secret' count threshold draws'.coefficients) =
          heldBy indices (split secret count threshold draws.coefficients) ↔ draws' = φ draws) ∧
    (PMF.uniformOfFintype (Draws secret.length threshold.toNat)).map
        (fun draws => heldBy indices (split secret' count threshold draws.coefficients)) =
      (PMF.uniformOfFintype (Draws secret.length threshold.toNat)).map
        (fun draws => heldBy indices (split secret count threshold draws.coefficients)) := by
  refine ⟨fun hsecret coefficients => ?_, fun coefficients => ?_, fun hmissing => ?_, ?_⟩
  · refine ⟨_, heldBy_split hsecret hlow hhigh, ?_⟩
    rw [List.map_map, show Share.index ∘ shareAt _ = id from rfl, List.map_id]
    exact ⟨(nodup_dealtIndices count).filter _, fun _ => mem_heldIndices hindices⟩
  · refine ⟨_, (heldBy_split_masking hlow hhigh hindices hfew hlength (.ofCoefficients
      coefficients)).trans ?_⟩
    rw [split_ofCoefficients]
  · exact ⟨_, heldBy_split_eq_iff_masking hlow hhigh hindices hmissing hlength⟩
  · -- the masks turn the draws for the one secret into equally likely ones for the other
    have hmasking : (fun draws : Draws secret.length threshold.toNat =>
        heldBy indices (split secret count threshold draws.coefficients)) =
        (fun draws => heldBy indices (split secret' count threshold draws.coefficients)) ∘
          Draws.masking indices secret secret' := by
      funext draws
      exact (heldBy_split_masking hlow hhigh hindices hfew hlength draws).symm
    rw [hmasking, ← PMF.map_comp, map_uniformOfFintype]

/-- One of three shares, of which two are needed: it may as well be a share of another secret. -/
theorem split_hides_one_of_three :
    heldBy {2} (split [7] 3 2 fun _ _ => 1) = .ok [⟨2, [5]⟩] ∧
    (∃ coefficients, heldBy {2} (split [9] 3 2 coefficients) = .ok [⟨2, [5]⟩]) ∧
    (∃ φ : Draws 1 2 ≃ Draws 1 2, ∀ draws draws',
      heldBy {2} (split [9] 3 2 draws'.coefficients) =
        heldBy {2} (split [7] 3 2 draws.coefficients) ↔ draws' = φ draws) ∧
    (PMF.uniformOfFintype (Draws 1 2)).map
        (fun draws => heldBy {2} (split [9] 3 2 draws.coefficients)) =
      (PMF.uniformOfFintype (Draws 1 2)).map
        (fun draws => heldBy {2} (split [7] 3 2 draws.coefficients)) := by
  have hindices : ∀ index ∈ ({2} : Finset UInt8), index ≠ 0 ∧ index ≤ 3 := by
    intro index hindex
    obtain rfl := Finset.mem_singleton.mp hindex
    decide
  obtain ⟨-, hsame, hbijection, hdistribution⟩ := split_hides (show (2 : UInt8) ≤ 2 by decide)
    (show (2 : UInt8) ≤ 3 by decide) hindices (by decide)
    (show ([9] : Bytes).length = ([7] : Bytes).length from rfl)
  have hshare : heldBy {2} (split [7] 3 2 fun _ _ => 1) = .ok [⟨2, [5]⟩] := by decide +kernel
  obtain ⟨coefficients, hcoefficients⟩ := hsame fun _ _ => 1
  exact ⟨hshare, ⟨coefficients, hcoefficients.trans hshare⟩, hbijection rfl, hdistribution⟩

end QuorumVault.Sharing
