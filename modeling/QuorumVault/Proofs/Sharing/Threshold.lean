import Mathlib.Tactic
import QuorumVault.Proofs.Sharing.Interpolation

/-!
# Any threshold of shares gives the secret back

`split` deals one share for each index from one on, as long as the secret, unless the secret is
empty or the threshold does not lie between two and the number of shares.  As many of the shares as
the threshold asks for, in any order, combine to the secret (`combine_of_split`), whatever the
random coefficients are.
-/

namespace QuorumVault.Sharing

open Polynomial

variable {secret : Bytes} {count threshold : UInt8} {coefficients : Coefficients}
  {dealt subset : List Share}

/-! ### What is dealt -/

/-- The indices that are dealt are one, two and so on. -/
theorem indices_of_split (h : split secret count threshold coefficients = .ok dealt) :
    dealt.map (fun s => s.index.toNat) = List.range' 1 count.toNat := by
  obtain ⟨-, -, -, rfl⟩ := split_eq_ok_iff.mp h
  rw [← map_toNat_dealtIndices, List.map_map]
  rfl

/-- The values of the shares at a place of the secret are those of a polynomial of low degree. -/
theorem exists_polynomial_of_split (h : split secret count threshold coefficients = .ok dealt)
    {place : ℕ} (hplace : place < secret.length) :
    ∃ f : Gf256[X], f.degree < threshold.toNat ∧
      f.eval 0 = Gf256.ofByte (secret.getD place 0) ∧
        ∀ share ∈ dealt, share.valueAt place = f.eval share.point := by
  obtain ⟨-, hthreshold, -, -⟩ := split_eq_ok_iff.mp h
  have hpos : 2 ≤ threshold.toNat := UInt8.le_iff_toNat_le.mp hthreshold
  refine ⟨hidingPolynomial threshold.toNat secret coefficients place,
    degree_hidingPolynomial_lt (by omega) secret coefficients place,
    eval_hidingPolynomial_zero threshold.toNat secret coefficients place, ?_⟩
  intro share hshare
  rw [((mem_dealt_iff h).mp hshare).2.2, valueAt_shareAt _ _ _ _ hplace]
  rfl

/-- Dealt shares are told apart by their indices. -/
theorem injOn_index_of_split (h : split secret count threshold coefficients = .ok dealt) :
    Set.InjOn Share.index { s | s ∈ dealt } := by
  intro s hs s' hs' hindex
  have hs := ((mem_dealt_iff h).mp hs).2.2
  have hs' := ((mem_dealt_iff h).mp hs').2.2
  rw [hs, hs', hindex]

/-- A map of dealt shares holds as many as it was made of. -/
theorem size_ofList_of_subset (h : split secret count threshold coefficients = .ok dealt)
    (hsubset : subset ⊆ dealt) : (ShareMap.ofList subset).size = subset.toFinset.card := by
  have himage : (subset.map Share.index).toFinset = subset.toFinset.image Share.index := by
    ext index
    simp
  have hinj : Set.InjOn Share.index (subset.toFinset : Set Share) := by
    intro s hs s' hs' hindex
    have hs : s ∈ subset := by simpa using hs
    have hs' : s' ∈ subset := by simpa using hs'
    exact injOn_index_of_split h (hsubset hs) (hsubset hs') hindex
  rw [ShareMap.size_ofList, himage, Finset.card_image_of_injOn hinj]

/-! ### What is refused -/

theorem split_eq_error_iff :
    (∃ fault, split secret count threshold coefficients = .error fault) ↔
      secret = [] ∨ threshold < 2 ∨ count < threshold := by
  simp only [split, List.isEmpty_iff]
  split_ifs with hsecret hthreshold
  · simp [hsecret]
  · simp [hthreshold]
  · simp [hsecret, hthreshold]

theorem exists_reason_of_split {fault : CryptoFault}
    (h : split secret count threshold coefficients = .error fault) :
    ∃ reason, fault = .split reason := by
  unfold split at h
  split_ifs at h
  · exact ⟨_, (Except.error.inj h).symm⟩
  · exact ⟨_, (Except.error.inj h).symm⟩

/-! ### Reconstruction -/

/-- **Threshold reconstruction.**  A secret that is not empty is split if the threshold lies between
two and the number of shares.  Then there is one share for each index from one on, as long as the
secret, and at each place of the secret the shares are values of a polynomial of a degree below the
threshold that has the byte of the secret at zero.  Shares of which as many are different as the
threshold asks for, in any order, combine to the secret, with any threshold that they meet.
Anything else is refused with a fault of splitting. -/
theorem combine_of_split (secret : Bytes) (count threshold : UInt8) (coefficients : Coefficients) :
    (secret ≠ [] → 2 ≤ threshold → threshold ≤ count →
      ∃ dealt, split secret count threshold coefficients = .ok dealt ∧
        dealt.map (fun s => s.index.toNat) = List.range' 1 count.toNat ∧
        (∀ share ∈ dealt, share.bytes.length = secret.length) ∧
        (∀ place < secret.length, ∃ f : Gf256[X], f.degree < threshold.toNat ∧
          f.eval 0 = Gf256.ofByte (secret.getD place 0) ∧
            ∀ share ∈ dealt, share.valueAt place = f.eval share.point) ∧
        ∀ subset ⊆ dealt, threshold.toNat ≤ subset.toFinset.card →
          ∀ least : UInt8, least.toNat ≤ subset.toFinset.card →
            combine least (.ofList subset) = .ok secret) ∧
    (secret = [] ∨ threshold < 2 ∨ count < threshold →
      ∃ reason, split secret count threshold coefficients = .error (.split reason)) := by
  constructor
  · intro hsecret hlow hhigh
    obtain ⟨dealt, hdealt⟩ : ∃ dealt, split secret count threshold coefficients = .ok dealt :=
      ⟨_, split_eq_ok_iff.mpr ⟨hsecret, hlow, hhigh, rfl⟩⟩
    refine ⟨dealt, hdealt, indices_of_split hdealt, ?_, ?_, ?_⟩
    · intro share hshare
      exact length_of_mem_dealt hdealt hshare
    · intro place hplace
      exact exists_polynomial_of_split hdealt hplace
    · intro subset hsubset henough least hleast
      have hsize := size_ofList_of_subset hdealt hsubset
      have hmem : ∀ s ∈ (ShareMap.ofList subset).shares, s ∈ dealt := fun s hs =>
        hsubset (ShareMap.mem_of_mem_shares_ofList hs)
      rw [← hsize] at henough hleast
      exact combine_of_dealt hdealt hmem henough hleast
  · intro hrefused
    obtain ⟨fault, hfault⟩ := split_eq_error_iff.mpr hrefused
    obtain ⟨reason, rfl⟩ := exists_reason_of_split hfault
    exact ⟨reason, hfault⟩

/-- The last and the first of three shares of one byte, with a threshold of two. -/
theorem combine_of_split_two_of_three :
    ∃ one two three : Share, split [7] 3 2 (fun _ _ => 1) = .ok [one, two, three] ∧
      combine 2 (.ofList [three, one]) = .ok [7] ∧
        ∃ reason, split [7] 3 4 (fun _ _ => 1) = .error (.split reason) := by
  obtain ⟨hsplit, -⟩ := combine_of_split [7] 3 2 (fun _ _ => 1)
  obtain ⟨-, hrefused⟩ := combine_of_split [7] 3 4 (fun _ _ => 1)
  obtain ⟨dealt, hdealt, -, -, -, hcombine⟩ := hsplit (by decide) (by decide) (by decide)
  have hshares : split [7] 3 2 (fun _ _ => 1) = .ok [⟨1, [6]⟩, ⟨2, [5]⟩, ⟨3, [4]⟩] := by
    decide +kernel
  obtain rfl := Except.ok.inj (hdealt.symm.trans hshares)
  refine ⟨_, _, _, hdealt, ?_, hrefused (by decide)⟩
  exact hcombine [⟨3, [4]⟩, ⟨1, [6]⟩] (by decide) (by decide) 2 (by decide)

end QuorumVault.Sharing
