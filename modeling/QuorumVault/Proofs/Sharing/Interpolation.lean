import Mathlib.LinearAlgebra.Lagrange
import Mathlib.Tactic
import QuorumVault.Proofs.Sharing.Gf256
import QuorumVault.Proofs.Sharing.Share
import QuorumVault.Sharing.Combine
import QuorumVault.Sharing.Split

/-!
# Reconstruction by interpolation

`weight` is the value at zero of a polynomial of the Lagrange basis, so that `combine` finds the
value at zero of any polynomials of low degree through the shares, and a secret that `split` has
shared comes back from every map that holds enough of its shares.
-/

namespace QuorumVault

namespace Share

/-- The element of the field at which a share has its values. -/
def point (share : Share) : Gf256 := Gf256.ofByte share.index

/-- The value of a share at a place of the secret. -/
def valueAt (share : Share) (place : ℕ) : Gf256 := Gf256.ofByte (share.bytes.getD place 0)

theorem nodup_points {shares : List Share} (h : (shares.map index).Nodup) :
    (shares.map point).Nodup := by
  rw [show shares.map point = (shares.map index).map Gf256.ofByte by rw [List.map_map]; rfl]
  exact h.map Gf256.ofByte_injective

end Share

namespace Sharing

open Polynomial

/-! ### Weights -/

theorem weight_eq_eval_basis {xs : List Gf256} (hxs : xs.Nodup) (x : Gf256) :
    weight xs x = (Lagrange.basis xs.toFinset id x).eval 0 := by
  set others := xs.filter (· ≠ x) with hothers
  have hnodup : others.Nodup := hxs.filter _
  have hset : others.toFinset = xs.toFinset.erase x := by
    ext y
    simp [hothers, and_comm]
  have hproduct (f : Gf256 → Gf256) :
      Gf256.product (others.map f) = ∏ y ∈ xs.toFinset.erase x, f y := by
    rw [Gf256.product_eq_prod, ← List.prod_toFinset f hnodup, hset]
  -- in characteristic two the differences of the basis polynomial are the sums of the weight
  calc weight xs x = Gf256.product (others.map id) / Gf256.product (others.map (· + x)) := by
        rw [List.map_id]; rfl
    _ = ∏ y ∈ xs.toFinset.erase x, y / (y + x) := by
        rw [hproduct, hproduct, ← Finset.prod_div_distrib]; rfl
    _ = ∏ y ∈ xs.toFinset.erase x, (Lagrange.basisDivisor x y).eval 0 := by
        refine Finset.prod_congr rfl fun y _ => ?_
        rw [Lagrange.basisDivisor, eval_mul, eval_C, eval_sub, eval_X, eval_C, CharTwo.sub_eq_add,
          CharTwo.sub_eq_add, zero_add, add_comm x y, div_eq_inv_mul]
    _ = (Lagrange.basis xs.toFinset id x).eval 0 := by
        rw [Lagrange.basis, eval_prod]; rfl

/-- A polynomial of low degree has at zero the weighted sum of its values. -/
theorem sum_weight_mul_eval {xs : List Gf256} (hxs : xs.Nodup) {f : Gf256[X]}
    (hf : f.degree < xs.length) :
    (xs.map fun x => weight xs x * f.eval x).sum = f.eval 0 := by
  have hf' : f.degree < xs.toFinset.card := by rwa [List.toFinset_card_of_nodup hxs]
  calc (xs.map fun x => weight xs x * f.eval x).sum
      = ∑ x ∈ xs.toFinset, (C (f.eval x) * Lagrange.basis xs.toFinset id x).eval 0 := by
        rw [← List.sum_toFinset _ hxs]
        refine Finset.sum_congr rfl fun x _ => ?_
        rw [eval_mul, eval_C, weight_eq_eval_basis hxs, mul_comm]
    _ = (Lagrange.interpolate xs.toFinset id fun x => f.eval x).eval 0 := by
        rw [Lagrange.interpolate_apply, eval_finsetSum]
    _ = f.eval 0 := by
        conv_rhs => rw [Lagrange.eq_interpolate (Set.injOn_id _) hf']
        rfl

/-! ### Values at zero -/

/-- The sums to which the weighted values of one more share are added. -/
def addShare (w : Gf256 → Gf256) (sums : List Gf256) (share : Share) : List Gf256 :=
  List.zipWith (fun a b => a + Gf256.productIn (w share.point).multiples (Gf256.ofByte b)) sums
    share.bytes

theorem addShare_map_range (w : Gf256 → Gf256) {n : ℕ} (g : ℕ → Gf256) {share : Share}
    (hlength : share.bytes.length = n) :
    addShare w ((List.range n).map g) share =
      (List.range n).map fun j => g j + w share.point * share.valueAt j := by
  refine List.ext_getElem (by simp [addShare, hlength]) fun j hj hj' => ?_
  have hj'' : j < share.bytes.length := by simpa [hlength] using hj'
  simp [addShare, Share.valueAt, List.getD_eq_getElem?_getD, hj'']

theorem foldl_addShare (w : Gf256 → Gf256) {n : ℕ} (g : ℕ → Gf256) {shares : List Share}
    (hlength : ∀ s ∈ shares, s.bytes.length = n) :
    shares.foldl (addShare w) ((List.range n).map g) =
      (List.range n).map fun j => g j + (shares.map fun s => w s.point * s.valueAt j).sum := by
  -- the sums so far differ from share to share, so that the induction is over all of them
  induction shares generalizing g with
  | nil => simp
  | cons s l ih =>
    rw [List.foldl_cons, addShare_map_range w g (hlength s List.mem_cons_self),
      ih _ fun s' hs' => hlength s' (List.mem_cons_of_mem s hs')]
    refine List.map_congr_left fun j _ => ?_
    rw [List.map_cons, List.sum_cons, add_assoc]

/-- Each byte of the value at zero is the weighted sum of the values at its place. -/
theorem valueAtZero_eq {n : ℕ} {shares : List Share} (hlength : ∀ s ∈ shares, s.bytes.length = n) :
    valueAtZero n shares = (List.range n).map fun j =>
      (shares.map fun s => weight (shares.map Share.point) s.point * s.valueAt j).sum.toByte := by
  have hzero : List.replicate n (0 : Gf256) = (List.range n).map fun _ => 0 := by
    rw [List.map_const', List.length_range]
  calc valueAtZero n shares
      = (shares.foldl (addShare (weight (shares.map Share.point))) (List.replicate n 0)).map
          Gf256.toByte := rfl
    _ = _ := by
      rw [hzero, foldl_addShare _ _ hlength, List.map_map]
      refine List.map_congr_left fun j _ => ?_
      rw [Function.comp_apply, zero_add]

/-- Shares that lie on polynomials of low degree have the values of these at zero. -/
theorem valueAtZero_eq_eval {n : ℕ} {shares : List Share}
    (hnodup : (shares.map Share.index).Nodup) (hlength : ∀ s ∈ shares, s.bytes.length = n)
    {f : ℕ → Gf256[X]} (hdegree : ∀ j < n, (f j).degree < shares.length)
    (hvalue : ∀ s ∈ shares, ∀ j < n, s.valueAt j = (f j).eval s.point) :
    valueAtZero n shares = (List.range n).map fun j => ((f j).eval 0).toByte := by
  rw [valueAtZero_eq hlength]
  refine List.map_congr_left fun j hj => ?_
  have hj := List.mem_range.mp hj
  -- the values of the shares are those of the polynomial at their points
  have hvalues : (shares.map fun s => weight (shares.map Share.point) s.point * s.valueAt j) =
      (shares.map Share.point).map fun x => weight (shares.map Share.point) x * (f j).eval x := by
    rw [List.map_map]
    refine List.map_congr_left fun s hs => ?_
    rw [hvalue s hs j hj, Function.comp_apply]
  rw [hvalues, sum_weight_mul_eval (Share.nodup_points hnodup)
    (by rw [List.length_map]; exact hdegree j hj)]

/-! ### Dealt shares -/

/-- The polynomial with the given coefficients from the constant term on. -/
noncomputable def toPolynomial (coefficients : List Gf256) : Gf256[X] :=
  coefficients.foldr (fun c p => C c + X * p) 0

@[simp] theorem eval_toPolynomial (coefficients : List Gf256) (x : Gf256) :
    (toPolynomial coefficients).eval x = evaluate coefficients x := by
  induction coefficients with
  | nil => simp [toPolynomial, evaluate]
  | cons c cs ih => simpa [toPolynomial, evaluate] using congrArg (x * ·) ih

theorem coeff_toPolynomial (coefficients : List Gf256) (i : ℕ) :
    (toPolynomial coefficients).coeff i = coefficients.getD i 0 := by
  induction coefficients generalizing i with
  | nil => simp [toPolynomial]
  | cons c cs ih =>
    have hcons : toPolynomial (c :: cs) = C c + X * toPolynomial cs := rfl
    cases i with
    | zero => simp [hcons]
    | succ i => simp [hcons, ih, coeff_C_succ]

theorem degree_toPolynomial_lt (coefficients : List Gf256) :
    (toPolynomial coefficients).degree < coefficients.length := by
  rw [degree_lt_iff_coeff_zero]
  intro i hi
  rw [coeff_toPolynomial, List.getD_eq_getElem?_getD, List.getElem?_eq_none hi, Option.getD_none]

/-- The polynomial that hides the byte at a place of a secret. -/
noncomputable def hidingPolynomial (threshold : ℕ) (secret : Bytes) (coefficients : Coefficients)
    (place : ℕ) : Gf256[X] :=
  toPolynomial (polynomial threshold (Gf256.ofByte (secret.getD place 0)) (coefficients place))

theorem degree_hidingPolynomial_lt {threshold : ℕ} (hthreshold : threshold ≠ 0) (secret : Bytes)
    (coefficients : Coefficients) (place : ℕ) :
    (hidingPolynomial threshold secret coefficients place).degree < threshold := by
  have hlength (c : Gf256) : (polynomial threshold c (coefficients place)).length = threshold := by
    rw [polynomial, List.length_cons, List.length_map, List.length_range]
    omega
  have h := degree_toPolynomial_lt (polynomial threshold (Gf256.ofByte (secret.getD place 0))
    (coefficients place))
  rwa [hlength] at h

theorem eval_hidingPolynomial_zero (threshold : ℕ) (secret : Bytes) (coefficients : Coefficients)
    (place : ℕ) :
    (hidingPolynomial threshold secret coefficients place).eval 0 =
      Gf256.ofByte (secret.getD place 0) := by
  simp [hidingPolynomial, polynomial, evaluate]

@[simp] theorem length_polynomials (threshold : ℕ) (secret : Bytes) (coefficients : Coefficients) :
    (polynomials threshold secret coefficients).length = secret.length :=
  List.length_mapIdx

theorem valueAt_shareAt (threshold : ℕ) (secret : Bytes) (coefficients : Coefficients)
    (index : UInt8) {place : ℕ} (hplace : place < secret.length) :
    (shareAt (polynomials threshold secret coefficients) index).valueAt place =
      (hidingPolynomial threshold secret coefficients place).eval (Gf256.ofByte index) := by
  simp [shareAt, Share.valueAt, polynomials, hidingPolynomial, List.getD_eq_getElem?_getD, hplace]

/-- The indices of the shares of a splitting. -/
def dealtIndices (count : UInt8) : List UInt8 :=
  (List.range count.toNat).map fun i => UInt8.ofNat (i + 1)

/-- The indices are one, two and so on up to the number of shares. -/
theorem map_toNat_dealtIndices (count : UInt8) :
    (dealtIndices count).map UInt8.toNat = List.range' 1 count.toNat := by
  rw [dealtIndices, List.map_map, List.range'_eq_map_range]
  apply List.map_congr_left
  intro i hi
  -- the number of shares is at most 255, so that no index wraps around to zero
  have hcount := count.toNat_lt
  have hi := List.mem_range.mp hi
  rw [Function.comp_apply, UInt8.toNat_ofNat_of_lt' (show i + 1 < 256 by omega), Nat.add_comm]

theorem nodup_dealtIndices (count : UInt8) : (dealtIndices count).Nodup := by
  refine List.Nodup.of_map UInt8.toNat ?_
  rw [map_toNat_dealtIndices]
  exact List.nodup_range'

theorem mem_dealtIndices {count index : UInt8} :
    index ∈ dealtIndices count ↔ index ≠ 0 ∧ index ≤ count := by
  rw [← List.mem_map_of_injective fun _ _ => UInt8.toNat_inj.mp, map_toNat_dealtIndices,
    List.mem_range'_1, UInt8.le_iff_toNat_le, Ne, ← UInt8.toNat_inj, UInt8.toNat_zero]
  omega

/-- The shares of a splitting are the values at the indices from one up to their number. -/
theorem split_eq_ok_iff {secret : Bytes} {count threshold : UInt8} {coefficients : Coefficients}
    {dealt : List Share} :
    split secret count threshold coefficients = .ok dealt ↔
      secret ≠ [] ∧ 2 ≤ threshold ∧ threshold ≤ count ∧
        dealt = (dealtIndices count).map
          (shareAt (polynomials threshold.toNat secret coefficients)) := by
  simp only [split, List.isEmpty_iff, dealtIndices, List.map_map, Function.comp_def]
  split_ifs with hsecret hthreshold
  · simp [hsecret]
  · simp only [false_iff]
    rintro ⟨-, hlow, hhigh, -⟩
    rcases hthreshold with h | h
    · exact UInt8.not_lt.mpr hlow h
    · exact UInt8.not_lt.mpr hhigh h
  · rw [not_or, UInt8.not_lt, UInt8.not_lt] at hthreshold
    simp only [Except.ok.injEq]
    exact ⟨fun h => ⟨hsecret, hthreshold.1, hthreshold.2, h.symm⟩, fun h => h.2.2.2.symm⟩

/-- A share is dealt exactly if its index is between one and the number of shares and its values are
those of the polynomials. -/
theorem mem_dealt_iff {secret : Bytes} {count threshold : UInt8} {coefficients : Coefficients}
    {dealt : List Share} (hdealt : split secret count threshold coefficients = .ok dealt)
    {share : Share} :
    share ∈ dealt ↔ share.index ≠ 0 ∧ share.index ≤ count ∧
      share = shareAt (polynomials threshold.toNat secret coefficients) share.index := by
  obtain ⟨-, -, -, rfl⟩ := split_eq_ok_iff.mp hdealt
  rw [List.mem_map]
  constructor
  · rintro ⟨index, hindex, rfl⟩
    obtain ⟨hzero, hcount⟩ := mem_dealtIndices.mp hindex
    exact ⟨hzero, hcount, rfl⟩
  · rintro ⟨hzero, hcount, hshare⟩
    exact ⟨share.index, mem_dealtIndices.mpr ⟨hzero, hcount⟩, hshare.symm⟩

theorem length_of_mem_dealt {secret : Bytes} {count threshold : UInt8} {coefficients : Coefficients}
    {dealt : List Share} (hdealt : split secret count threshold coefficients = .ok dealt)
    {share : Share} (hshare : share ∈ dealt) : share.bytes.length = secret.length := by
  rw [((mem_dealt_iff hdealt).mp hshare).2.2]
  simp [shareAt]

/-! ### Combining -/

theorem any_isEmpty_iff {shares : List Share} :
    (shares.any (·.bytes.isEmpty)) = true ↔ ∃ s ∈ shares, s.bytes = [] := by
  simp [List.any_eq_true]

theorem all_length_iff {first : Share} {rest : List Share} :
    (rest.all fun s => s.bytes.length = first.bytes.length) = true ↔
      ∀ s ∈ first :: rest, s.bytes.length = first.bytes.length := by
  simp [List.all_eq_true]

/-- Shares combine exactly if they are enough, not empty and of one length. -/
theorem combine_eq_ok_iff {threshold : UInt8} {m : ShareMap} {secret : Bytes} :
    combine threshold m = .ok secret ↔ threshold.toNat ≤ m.size ∧ m.size ≠ 0 ∧
      ∃ n ≠ 0, (∀ s ∈ m.shares, s.bytes.length = n) ∧ secret = valueAtZero n m.shares := by
  unfold combine
  simp only [ShareMap.size]
  cases h : m.shares with
  | nil =>
    simp only [List.length_nil, ne_eq, not_true_eq_false, false_and, and_false, iff_false]
    split_ifs <;> intro h' <;> cases h'
  | cons first rest =>
    dsimp only
    split_ifs with hthreshold hempty hlength
    · -- too few shares
      simp only [false_iff]
      exact fun h => Nat.not_lt.mpr h.1 hthreshold
    · -- an empty share
      simp only [false_iff]
      rintro ⟨-, -, n, hn, hlength, -⟩
      obtain ⟨s, hs, hbytes⟩ := any_isEmpty_iff.mp hempty
      exact hn (by rw [← hlength s hs, hbytes, List.length_nil])
    · have hfirst : first.bytes.length ≠ 0 := by
        intro hzero
        exact hempty (any_isEmpty_iff.mpr
          ⟨first, List.mem_cons_self, List.eq_nil_of_length_eq_zero hzero⟩)
      have hall := all_length_iff.mp hlength
      simp only [Except.ok.injEq]
      constructor
      · rintro rfl
        exact ⟨Nat.not_lt.mp hthreshold, by simp, _, hfirst, hall, rfl⟩
      · rintro ⟨-, -, n, -, hn, rfl⟩
        rw [hn first List.mem_cons_self]
    · -- shares of different lengths
      simp only [false_iff]
      rintro ⟨-, -, n, -, hn, -⟩
      refine hlength (all_length_iff.mpr fun s hs => ?_)
      rw [hn s hs, hn first List.mem_cons_self]

/-- **Reconstruction**: a map of dealt shares combines to the secret if it holds as many of them as
the dealer has set for a threshold. -/
theorem combine_of_dealt {secret : Bytes} {count threshold : UInt8} {coefficients : Coefficients}
    {dealt : List Share} (hdealt : split secret count threshold coefficients = .ok dealt)
    {m : ShareMap} (hm : ∀ s ∈ m.shares, s ∈ dealt) (hsize : threshold.toNat ≤ m.size)
    {least : UInt8} (hleast : least.toNat ≤ m.size) : combine least m = .ok secret := by
  obtain ⟨hsecret, hthreshold, -, -⟩ := split_eq_ok_iff.mp hdealt
  have hpos : 2 ≤ threshold.toNat := UInt8.le_iff_toNat_le.mp hthreshold
  have hlength : ∀ s ∈ m.shares, s.bytes.length = secret.length :=
    fun s hs => length_of_mem_dealt hdealt (hm s hs)
  -- the shares are more than the degree of the polynomials on which they lie
  have hdegree (j : ℕ) :
      (hidingPolynomial threshold.toNat secret coefficients j).degree < m.shares.length :=
    (degree_hidingPolynomial_lt (by omega) secret coefficients j).trans_le (Nat.cast_le.mpr hsize)
  have hvalue : ∀ s ∈ m.shares, ∀ j < secret.length,
      s.valueAt j = (hidingPolynomial threshold.toNat secret coefficients j).eval s.point := by
    intro s hs j hj
    rw [((mem_dealt_iff hdealt).mp (hm s hs)).2.2, valueAt_shareAt _ _ _ _ hj]
    rfl
  refine combine_eq_ok_iff.mpr
    ⟨hleast, by omega, secret.length, by simpa using hsecret, hlength, ?_⟩
  rw [valueAtZero_eq_eval m.nodup_shares hlength (fun j _ => hdegree j) hvalue]
  refine List.ext_getElem (by simp) fun j hj hj' => ?_
  simp [eval_hidingPolynomial_zero, hj]

end Sharing

end QuorumVault
