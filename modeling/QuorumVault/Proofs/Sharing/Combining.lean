import Mathlib.LinearAlgebra.Lagrange
import Mathlib.Tactic
import QuorumVault.Proofs.Sharing.Interpolation

/-!
# Combining is interpolation

Shares are combined iff they are enough, at least one, not empty and of one length (`Combinable`);
every other map is refused for the first thing that is wrong with it (`Refuses`).  At each place
exactly one polynomial of a degree below the number of shares passes through all of them
(`existsUnique_isThrough`), and what they combine to is its value at zero (`combine_exact`).

No more is asked of the shares: they need not have been dealt, and one of them may have the index
zero.
-/

namespace QuorumVault.Sharing

open Polynomial

variable {threshold : UInt8} {m : ShareMap}

/-! ### The polynomial through all of the shares -/

/-- A polynomial of a degree below the number of shares that has their values at a place. -/
structure IsThrough (m : ShareMap) (place : ℕ) (f : Gf256[X]) : Prop where
  degree_lt : f.degree < m.size
  eval_eq : ∀ share ∈ m.shares, f.eval share.point = share.valueAt place

theorem injOn_point (m : ShareMap) : Set.InjOn Share.point (m.shares.toFinset : Set Share) := by
  intro s hs s' hs' hpoint
  have hnodup := Share.nodup_points m.nodup_shares
  exact List.inj_on_of_nodup_map hnodup (by simpa using hs) (by simpa using hs') hpoint

theorem card_toFinset_shares (m : ShareMap) : m.shares.toFinset.card = m.size :=
  List.toFinset_card_of_nodup m.nodup_shares.of_map

theorem isThrough_iff (m : ShareMap) (place : ℕ) (f : Gf256[X]) :
    IsThrough m place f ↔
      f = Lagrange.interpolate m.shares.toFinset Share.point fun s => s.valueAt place := by
  rw [← Lagrange.eq_interpolate_iff _ (injOn_point m), card_toFinset_shares]
  constructor
  · intro h
    exact ⟨h.degree_lt, fun s hs => h.eval_eq s (List.mem_toFinset.mp hs)⟩
  · rintro ⟨hdegree, heval⟩
    exact ⟨hdegree, fun s hs => heval s (List.mem_toFinset.mpr hs)⟩

theorem existsUnique_isThrough (m : ShareMap) (place : ℕ) : ∃! f, IsThrough m place f :=
  ⟨_, (isThrough_iff m place _).mpr rfl, fun f hf => (isThrough_iff m place f).mp hf⟩

/-! ### Divisions -/

/-- What the weight of the value at `x` is divided by: the product of the differences between the
other points and `x`. -/
def divisor (xs : List Gf256) (x : Gf256) : Gf256 :=
  Gf256.product ((xs.filter (· ≠ x)).map (· + x))

theorem weight_eq_div (xs : List Gf256) (x : Gf256) :
    weight xs x = Gf256.product (xs.filter (· ≠ x)) / divisor xs x := rfl

theorem divisor_ne_zero (xs : List Gf256) (x : Gf256) : divisor xs x ≠ 0 := by
  rw [divisor, Gf256.product_eq_prod]
  refine List.prod_ne_zero fun hzero => ?_
  obtain ⟨y, hy, hsum⟩ := List.mem_map.mp hzero
  have hne : y ≠ x := by simpa using (List.mem_filter.mp hy).2
  exact hne (CharTwo.add_eq_zero.mp hsum)

/-! ### What is combined -/

/-- A map of shares that combine. -/
structure Combinable (threshold : UInt8) (m : ShareMap) : Prop where
  threshold_le : threshold.toNat ≤ m.size
  size_ne_zero : m.size ≠ 0
  bytes_ne_nil : ∀ share ∈ m.shares, share.bytes ≠ []
  length_eq : ∀ share ∈ m.shares, ∀ share' ∈ m.shares, share.bytes.length = share'.bytes.length

theorem exists_combine_iff :
    (∃ secret, combine threshold m = .ok secret) ↔ Combinable threshold m := by
  simp only [combine_eq_ok_iff]
  constructor
  · rintro ⟨-, hthreshold, hsize, n, hn, hlength, -⟩
    refine ⟨hthreshold, hsize, fun s hs hnil => ?_, fun s hs s' hs' => ?_⟩
    · rw [← hlength s hs, hnil] at hn
      exact hn rfl
    · rw [hlength s hs, hlength s' hs']
  · rintro ⟨hthreshold, hsize, hempty, hlength⟩
    have hnil : m.shares ≠ [] := by simpa [ShareMap.size] using hsize
    obtain ⟨first, hfirst⟩ := List.exists_mem_of_ne_nil m.shares hnil
    exact ⟨_, hthreshold, hsize, first.bytes.length, by simpa using hempty first hfirst,
      fun s hs => hlength s hs first hfirst, rfl⟩

/-- What is combined is as long as each of the shares. -/
theorem length_of_combine {secret : Bytes} (h : combine threshold m = .ok secret) {share : Share}
    (hshare : share ∈ m.shares) : secret.length = share.bytes.length := by
  obtain ⟨-, -, n, -, hlength, rfl⟩ := combine_eq_ok_iff.mp h
  rw [valueAtZero_eq hlength, List.length_map, List.length_range, hlength share hshare]

/-- **Interpolation**: what is combined are the values at zero of the polynomials through all of the
shares. -/
theorem eval_of_combine {secret : Bytes} (h : combine threshold m = .ok secret) {place : ℕ}
    (hplace : place < secret.length) {f : Gf256[X]} (hf : IsThrough m place f) :
    Gf256.ofByte (secret.getD place 0) = f.eval 0 := by
  obtain ⟨-, -, n, -, hlength, rfl⟩ := combine_eq_ok_iff.mp h
  let through (j : ℕ) : Gf256[X] :=
    Lagrange.interpolate m.shares.toFinset Share.point fun s => s.valueAt j
  have hthrough (j : ℕ) : IsThrough m j (through j) := (isThrough_iff m j _).mpr rfl
  obtain rfl : f = through place := (isThrough_iff m place f).mp hf
  rw [valueAtZero_eq_eval m.nodup_shares hlength (fun j _ => (hthrough j).degree_lt)
    fun s hs j _ => ((hthrough j).eval_eq s hs).symm] at hplace ⊢
  simp only [List.length_map, List.length_range] at hplace
  simp [hplace]

/-- A share with the index zero is the secret itself. -/
theorem eq_of_get?_zero {secret bytes : Bytes} (h : combine threshold m = .ok secret)
    (hzero : m.get? 0 = some bytes) : secret = bytes := by
  have hshare : ⟨0, bytes⟩ ∈ m.shares := ShareMap.mem_shares.mpr hzero
  have hlength := length_of_combine h hshare
  refine List.ext_getElem hlength fun j hj hj' => ?_
  obtain ⟨f, hf, -⟩ := existsUnique_isThrough m j
  -- the polynomial has the values of this share at the point zero
  have hvalue : Gf256.ofByte (secret.getD j 0) = Gf256.ofByte (bytes.getD j 0) :=
    (eval_of_combine h hj hf).trans (hf.eval_eq _ hshare)
  have hbyte := Gf256.ofByte_injective hvalue
  simpa [List.getD_eq_getElem?_getD, hj, hj'] using hbyte

/-! ### What is refused -/

/-- Why a map is refused.  Each reason presupposes that there is none of those before it. -/
inductive Refuses (threshold : UInt8) (m : ShareMap) : CryptoFault → Prop
  | tooFew (h : m.size < threshold.toNat) :
    Refuses threshold m (.combine (needed threshold m.size))
  | none (henough : threshold.toNat ≤ m.size) (h : m.size = 0) :
    Refuses threshold m (.combine "Not enough shares to recover original secret")
  | emptyShare (henough : threshold.toNat ≤ m.size) (h : ∃ share ∈ m.shares, share.bytes = []) :
    Refuses threshold m (.share "A Share must be at least 2 bytes long")
  | lengths (henough : threshold.toNat ≤ m.size) (hempty : ∀ share ∈ m.shares, share.bytes ≠ [])
      (h : ∃ share ∈ m.shares, ∃ share' ∈ m.shares, share.bytes.length ≠ share'.bytes.length) :
    Refuses threshold m (.combine "All shares must have the same length")

theorem combine_of_refuses {fault : CryptoFault} (h : Refuses threshold m fault) :
    combine threshold m = .error fault := by
  unfold combine
  simp only
  cases h with
  | tooFew h => exact if_pos h
  | none henough h =>
    have hcount : ¬m.shares.length < threshold.toNat := Nat.not_lt.mpr henough
    have hnil : m.shares = [] := List.eq_nil_of_length_eq_zero h
    rw [if_neg hcount, hnil]
    rfl
  | emptyShare henough h =>
    have hcount : ¬m.shares.length < threshold.toNat := Nat.not_lt.mpr henough
    rw [if_neg hcount, if_pos (any_isEmpty_iff.mpr h)]
  | lengths henough hempty h =>
    have hcount : ¬m.shares.length < threshold.toNat := Nat.not_lt.mpr henough
    obtain ⟨share, hshare, share', hshare', hne⟩ := h
    have hany : ¬m.shares.any (·.bytes.isEmpty) = true := by
      intro hany
      obtain ⟨s, hs, hbytes⟩ := any_isEmpty_iff.mp hany
      exact hempty s hs hbytes
    rw [if_neg hcount, if_neg hany]
    cases hshares : m.shares with
    | nil =>
      rw [hshares] at hshare
      cases hshare
    | cons first rest =>
      dsimp only
      rw [if_neg]
      intro hall
      -- otherwise both of the two shares would be as long as the first one
      have hfirst := all_length_iff.mp hall
      rw [hshares] at hshare hshare'
      exact hne ((hfirst share hshare).trans (hfirst share' hshare').symm)

theorem combinable_or_refuses (threshold : UInt8) (m : ShareMap) :
    Combinable threshold m ∨ ∃ fault, Refuses threshold m fault := by
  by_cases henough : m.size < threshold.toNat
  · exact .inr ⟨_, .tooFew henough⟩
  have henough := Nat.not_lt.mp henough
  by_cases hnone : m.size = 0
  · exact .inr ⟨_, .none henough hnone⟩
  by_cases hempty : ∃ share ∈ m.shares, share.bytes = []
  · exact .inr ⟨_, .emptyShare henough hempty⟩
  have hempty : ∀ share ∈ m.shares, share.bytes ≠ [] := fun s hs h => hempty ⟨s, hs, h⟩
  by_cases hlength :
      ∃ share ∈ m.shares, ∃ share' ∈ m.shares, share.bytes.length ≠ share'.bytes.length
  · exact .inr ⟨_, .lengths henough hempty hlength⟩
  · refine .inl ⟨henough, hnone, hempty, fun s hs s' hs' => ?_⟩
    by_contra hne
    exact hlength ⟨s, hs, s', hs', hne⟩

theorem combine_eq_error_iff {fault : CryptoFault} :
    combine threshold m = .error fault ↔ Refuses threshold m fault := by
  refine ⟨fun h => ?_, combine_of_refuses⟩
  rcases combinable_or_refuses threshold m with hcombinable | ⟨fault', hrefuses⟩
  · obtain ⟨secret, hsecret⟩ := exists_combine_iff.mpr hcombinable
    rw [hsecret] at h
    cases h
  · rw [combine_of_refuses hrefuses] at h
    cases h
    exact hrefuses

/-! ### Exactness -/

/-- **Combining is interpolation at zero.**  Shares combine iff they are enough, at least one, not
empty and of one length.  What they combine to has this length, and at each place it is the value at
zero of the one polynomial of a degree below the number of shares that passes through all of them;
no division is by zero, and a share with the index zero is itself the secret.  Every other map is
refused for the first thing that is wrong with it. -/
theorem combine_exact (threshold : UInt8) (m : ShareMap) :
    ((∃ secret, combine threshold m = .ok secret) ↔ Combinable threshold m) ∧
    (∀ secret, combine threshold m = .ok secret →
      (∀ share ∈ m.shares, secret.length = share.bytes.length) ∧
      (∀ place < secret.length, (∃! f, IsThrough m place f) ∧
        ∀ f, IsThrough m place f → Gf256.ofByte (secret.getD place 0) = f.eval 0) ∧
      ∀ bytes, m.get? 0 = some bytes → secret = bytes) ∧
    (∀ x, weight (m.shares.map Share.point) x =
        Gf256.product ((m.shares.map Share.point).filter (· ≠ x)) /
          divisor (m.shares.map Share.point) x ∧
      divisor (m.shares.map Share.point) x ≠ 0) ∧
    ∀ fault, combine threshold m = .error fault ↔ Refuses threshold m fault := by
  refine ⟨exists_combine_iff, fun secret h => ⟨?_, ?_, ?_⟩, ?_, ?_⟩
  · intro share hshare
    exact length_of_combine h hshare
  · intro place hplace
    exact ⟨existsUnique_isThrough m place, fun f hf => eval_of_combine h hplace hf⟩
  · intro bytes hzero
    exact eq_of_get?_zero h hzero
  · intro x
    exact ⟨weight_eq_div _ x, divisor_ne_zero _ x⟩
  · intro fault
    exact combine_eq_error_iff

/-- A share with the index zero next to another one of its length, and to an empty one. -/
theorem combine_exact_with_zero :
    combine 2 (.ofList [⟨5, [9, 3]⟩, ⟨0, [7, 8]⟩]) = .ok [7, 8] ∧
      ∃ reason, combine 2 (.ofList [⟨5, []⟩, ⟨0, [7, 8]⟩]) = .error (.share reason) := by
  obtain ⟨hok, hsecret, -, -⟩ := combine_exact 2 (.ofList [⟨5, [9, 3]⟩, ⟨0, [7, 8]⟩])
  obtain ⟨-, -, -, hrefuses⟩ := combine_exact 2 (.ofList [⟨5, []⟩, ⟨0, [7, 8]⟩])
  constructor
  · obtain ⟨secret, h⟩ := hok.mpr
      ⟨by decide +kernel, by decide +kernel, by decide +kernel, by decide +kernel⟩
    obtain ⟨-, -, hzero⟩ := hsecret secret h
    rw [h, hzero [7, 8] rfl]
  · have hmem : ⟨5, []⟩ ∈ (ShareMap.ofList [⟨5, []⟩, ⟨0, [7, 8]⟩]).shares :=
      ShareMap.mem_shares.mpr rfl
    exact ⟨_, (hrefuses _).mpr (.emptyShare (by decide +kernel) ⟨_, hmem, rfl⟩)⟩

end QuorumVault.Sharing
