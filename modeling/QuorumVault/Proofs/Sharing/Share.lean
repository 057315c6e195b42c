import Mathlib.Data.Finset.Card
import Mathlib.Data.Fintype.Basic
import Mathlib.Data.List.Nodup
import Mathlib.Tactic
import QuorumVault.Sharing.Share

/-!
# Shares and maps of shares

The text of a share is read back as the share that was written, and a map of shares lists each index
that it holds exactly once.
-/

namespace QuorumVault

namespace Share

theorem ofBytes?_eq_ok_iff {bs : Bytes} {share : Share} :
    ofBytes? bs = .ok share ↔ bs = share.toBytes ∧ share.index ≠ 0 ∧ share.bytes ≠ [] := by
  cases bs with
  | nil => simp [ofBytes?, toBytes]
  | cons index bytes =>
    obtain ⟨i, values⟩ := share
    simp only [ofBytes?, toBytes, List.isEmpty_iff]
    split_ifs with hindex hbytes
    · simp only [false_iff, List.cons.injEq]
      rintro ⟨⟨rfl, -⟩, h, -⟩
      exact h hindex
    · simp only [false_iff, List.cons.injEq]
      rintro ⟨⟨-, rfl⟩, -, h⟩
      exact h hbytes
    · simp only [Except.ok.injEq, Share.mk.injEq, List.cons.injEq]
      constructor
      · rintro ⟨rfl, rfl⟩
        exact ⟨⟨rfl, rfl⟩, hindex, hbytes⟩
      · exact fun h => h.1

end Share

namespace ShareMap

@[simp] theorem get?_empty (index : UInt8) : empty.get? index = none := rfl

@[simp] theorem get?_insert_self (m : ShareMap) (share : Share) :
    (m.insert share).get? share.index = some share.bytes := by
  simp [insert]

theorem get?_insert_of_ne (m : ShareMap) {share : Share} {index : UInt8} (h : index ≠ share.index) :
    (m.insert share).get? index = m.get? index := by
  simp [insert, h]

@[simp] theorem empty_extend (m : ShareMap) : empty.extend m = m :=
  ext fun _ => Option.or_none

theorem contains_eq_true_iff {m : ShareMap} {index : UInt8} :
    m.contains index = true ↔ ∃ bytes, m.get? index = some bytes :=
  Option.isSome_iff_exists

theorem mem_indices (index : UInt8) : index ∈ indices := by
  rw [indices, List.mem_map]
  exact ⟨index.toNat, List.mem_range.mpr index.toNat_lt, UInt8.ofNat_toNat⟩

theorem nodup_indices : indices.Nodup := by
  refine List.Nodup.map_on (fun i hi j hj h => ?_) List.nodup_range
  have := congrArg UInt8.toNat h
  rwa [UInt8.toNat_ofNat_of_lt' (List.mem_range.mp hi),
    UInt8.toNat_ofNat_of_lt' (List.mem_range.mp hj)] at this

theorem mem_shares {m : ShareMap} {share : Share} :
    share ∈ m.shares ↔ m.get? share.index = some share.bytes := by
  rw [shares, List.mem_filterMap]
  constructor
  · rintro ⟨index, -, h⟩
    obtain ⟨bytes, hbytes, rfl⟩ := Option.map_eq_some_iff.mp h
    exact hbytes
  · intro h
    exact ⟨share.index, mem_indices share.index, by rw [h]; rfl⟩

theorem map_index_shares (m : ShareMap) : m.shares.map Share.index = indices.filter m.contains := by
  rw [shares]
  induction indices with
  | nil => rfl
  | cons index l ih =>
    rw [List.filterMap_cons, List.filter_cons]
    cases h : m.get? index with
    | none => simpa [contains, h] using ih
    | some bytes => simpa [contains, h] using ih

theorem mem_shares_insert {m : ShareMap} {new share : Share} :
    share ∈ (m.insert new).shares ↔ share = new ∨ share.index ≠ new.index ∧ share ∈ m.shares := by
  rw [mem_shares, mem_shares]
  by_cases h : share.index = new.index
  · rw [h, get?_insert_self, Option.some.injEq]
    constructor
    · intro hbytes
      left
      cases share
      cases new
      cases h
      cases hbytes
      rfl
    · rintro (rfl | ⟨hne, -⟩)
      · rfl
      · exact absurd rfl hne
  · rw [get?_insert_of_ne m h]
    constructor
    · exact fun hget => .inr ⟨h, hget⟩
    · rintro (rfl | ⟨-, hget⟩)
      · exact absurd rfl h
      · exact hget

theorem contains_insert (m : ShareMap) (share : Share) (index : UInt8) :
    (m.insert share).contains index = true ↔ index = share.index ∨ m.contains index = true := by
  by_cases h : index = share.index
  · subst h
    simp [contains]
  · simp [contains, get?_insert_of_ne m h, h]

/-- No two shares of a map have the same index. -/
theorem nodup_shares (m : ShareMap) : (m.shares.map Share.index).Nodup := by
  rw [map_index_shares]
  exact nodup_indices.filter _

theorem shares_eq_nil_iff {m : ShareMap} : m.shares = [] ↔ m = empty := by
  constructor
  · intro h
    refine ext fun index => ?_
    cases hget : m.get? index with
    | none => rfl
    | some bytes =>
      have hmem : ⟨index, bytes⟩ ∈ m.shares := mem_shares.mpr hget
      rw [h] at hmem
      cases hmem
  · rintro rfl
    exact List.eq_nil_iff_forall_not_mem.mpr fun share h => by simpa using mem_shares.mp h

@[simp] theorem size_empty : empty.size = 0 := by
  rw [size, shares_eq_nil_iff.mpr rfl, List.length_nil]

/-- The number of shares is the number of their indices. -/
theorem size_eq_card {m : ShareMap} {s : Finset UInt8} (h : ∀ i, m.contains i = true ↔ i ∈ s) :
    m.size = s.card := by
  have hs : (m.shares.map Share.index).toFinset = s := by
    ext i
    rw [List.mem_toFinset, List.mem_map, ← h, contains_eq_true_iff]
    constructor
    · rintro ⟨share, hshare, rfl⟩
      exact ⟨share.bytes, mem_shares.mp hshare⟩
    · rintro ⟨bytes, hbytes⟩
      exact ⟨⟨i, bytes⟩, mem_shares.mpr hbytes, rfl⟩
  rw [← hs, List.toFinset_card_of_nodup m.nodup_shares, List.length_map, size]

/-- There are no more shares than indices that a share may have. -/
theorem size_le_of_forall_index {m : ShareMap} {n : UInt8}
    (h : ∀ share ∈ m.shares, share.index ≠ 0 ∧ share.index ≤ n) : m.size ≤ n.toNat := by
  have hnodup : ((m.shares.map Share.index).map UInt8.toNat).Nodup :=
    m.nodup_shares.map fun _ _ => UInt8.toNat_inj.mp
  have hsubset : (m.shares.map Share.index).map UInt8.toNat ⊆ List.range' 1 n.toNat := by
    intro i hi
    rw [List.map_map, List.mem_map] at hi
    obtain ⟨share, hshare, rfl⟩ := hi
    obtain ⟨hzero, hle⟩ := h share hshare
    have hpos : share.index.toNat ≠ 0 := fun h0 => hzero (UInt8.toNat_inj.mp h0)
    have hle' : share.index.toNat ≤ n.toNat := UInt8.le_iff_toNat_le.mp hle
    rw [List.mem_range'_1, Function.comp_apply]
    omega
  have hlength := (List.subperm_of_subset hnodup hsubset).length_le
  rwa [List.length_map, List.length_map, List.length_range'] at hlength

/-! ### Maps of given shares -/

theorem ofList_append_singleton (shares : List Share) (share : Share) :
    ofList (shares ++ [share]) = (ofList shares).insert share := by
  unfold ofList
  rw [List.foldl_append, List.foldl_cons, List.foldl_nil]

/-- Of the shares with one index the last one is in the map. -/
theorem get?_ofList (shares : List Share) (index : UInt8) :
    (ofList shares).get? index =
      (shares.reverse.find? fun s => s.index = index).map Share.bytes := by
  induction shares using List.reverseRecOn with
  | nil => rfl
  | append_singleton shares share ih =>
    rw [ofList_append_singleton, List.reverse_append, List.reverse_singleton, List.singleton_append]
    by_cases h : share.index = index
    · subst h
      rw [get?_insert_self, List.find?_cons_of_pos (by simp), Option.map_some]
    · rw [get?_insert_of_ne _ (Ne.symm h), List.find?_cons_of_neg (by simpa using h), ih]

/-- A share of the map is one of those that it was made of. -/
theorem mem_of_mem_shares_ofList {shares : List Share} {share : Share}
    (h : share ∈ (ofList shares).shares) : share ∈ shares := by
  rw [mem_shares, get?_ofList] at h
  obtain ⟨found, hfound, hbytes⟩ := Option.map_eq_some_iff.mp h
  have hindex : found.index = share.index := by simpa using List.find?_some hfound
  have hmem : found ∈ shares := by simpa using List.mem_of_find?_eq_some hfound
  obtain rfl : found = share := by
    cases found; cases share; cases hindex; cases hbytes; rfl
  exact hmem

theorem contains_ofList (shares : List Share) (index : UInt8) :
    (ofList shares).contains index = true ↔ index ∈ shares.map Share.index := by
  rw [contains, get?_ofList, Option.isSome_map, List.find?_isSome]
  simp

/-- There are as many shares in the map as there are indices of those that it was made of. -/
theorem size_ofList (shares : List Share) :
    (ofList shares).size = (shares.map Share.index).toFinset.card :=
  size_eq_card fun index => by rw [contains_ofList, List.mem_toFinset]

end ShareMap

end QuorumVault
