import Mathlib.Tactic
import QuorumVault.Proofs.Token.TimedCache

/-!
# Caches in use

A cache does what its `Log` of commands tells: a key has the value that was last put under it, for
as long as its lifetime has not passed since (`TimedCache.lastPut?`), and of all keys that are kept
the one whose last use lies the furthest back makes room for a new one (`TimedCache.idle`).  The
invariant behind this is `TimedCache.Tracks`: the entries stand in the order of their last uses, and
each tells when its key was last put and with which value.  Age and recency are independent: `get`
is a use of a key, but only `put` starts its lifetime anew.

`TimedCache.Drops` lists how a key is lost.  The main result is `TimedCache.after_exact`.
-/

namespace QuorumVault.TimedCache

variable {κ α : Type}

/-! ### Commands -/

/-- What may be asked of a cache. -/
inductive Command (κ α : Type) where
  | put (key : κ) (value : α)
  | get (key : κ)
  | contains (key : κ)
  | erase (key : κ)
  | clear

/-- The key that a command uses. -/
def Command.used? : Command κ α → Option κ
  | .put key _ => some key
  | .get key => some key
  | .contains _ => none
  | .erase _ => none
  | .clear => none

/-- Commands and the times at which they were given, the last one first. -/
abbrev Log (κ α : Type) := List (Duration × Command κ α)

/-- The keys that were used, the one used last first. -/
def uses (log : Log κ α) : List κ := log.filterMap fun p => p.2.used?

theorem uses_cons (p : Duration × Command κ α) (log : Log κ α) :
    uses (p :: log) = p.2.used?.toList ++ uses log := by
  unfold uses
  rw [List.filterMap_cons]
  cases p.2.used? with
  | none => rfl
  | some key => rfl

/-- A key is kept, even if its lifetime has passed. -/
def Stores (c : TimedCache κ α) (key : κ) : Prop := ∃ e ∈ c.entries, e.key = key

/-- The entries have different keys. -/
def KeysDiffer (c : TimedCache κ α) : Prop := (c.entries.map (·.key)).Nodup

theorem KeysDiffer.eq_of_key_eq {c : TimedCache κ α} {e f : Entry κ α} (h : c.KeysDiffer)
    (he : e ∈ c.entries) (hf : f ∈ c.entries) (hkey : e.key = f.key) : e = f :=
  List.inj_on_of_nodup_map h he hf hkey

variable [DecidableEq κ]

/-- The cache after a command. -/
def Command.run (now : Duration) (c : TimedCache κ α) : Command κ α → TimedCache κ α
  | .put key value => c.put now key value
  | .get key => (c.get now key).2
  | .contains _ => c
  | .erase key => c.erase key
  | .clear => c.clear

/-- The cache after all commands of a log. -/
def after (capacity : ℕ) (ttl : Duration) : Log κ α → TimedCache κ α
  | [] => .empty capacity ttl
  | (now, command) :: log => command.run now (after capacity ttl log)

/-- When a key was last put, and with which value. -/
def lastPut? (key : κ) : Log κ α → Option (Duration × α)
  | [] => none
  | (now, .put k value) :: log => if k = key then some (now, value) else lastPut? key log
  | (_, .get _) :: log => lastPut? key log
  | (_, .contains _) :: log => lastPut? key log
  | (_, .erase _) :: log => lastPut? key log
  | (_, .clear) :: log => lastPut? key log

/-- How many uses of keys have followed the last one of a key. -/
def idle (key : κ) (log : Log κ α) : ℕ := (uses log).idxOf key

/-- How a command loses a key. -/
inductive Drops (log : Log κ α) (now : Duration) (c : TimedCache κ α) : Command κ α → κ → Prop where
  | clear (key : κ) : Drops log now c .clear key
  | erase (key : κ) : Drops log now c (.erase key) key
  /-- It is looked up when its lifetime has passed. -/
  | expired {key : κ} {putAt : Duration} {value : α} (hput : lastPut? key log = some (putAt, value))
      (hpassed : putAt.nanos + c.ttl.nanos ≤ now.nanos) : Drops log now c (.get key) key
  /-- It is the one used the longest ago, and makes room for a new one. -/
  | evicted {new key : κ} (value : α) (hnew : ¬c.Stores new) (hfull : c.size = c.limit)
      (hidle : ∀ other, c.Stores other → other ≠ key → idle other log < idle key log) :
      Drops log now c (.put new value) key

variable {capacity : ℕ} {ttl now later : Duration} {log : Log κ α} {c : TimedCache κ α}
  {e f : Entry κ α} {key key' : κ} {value : α} {command : Command κ α}

/-! ### What is kept -/

theorem find?_eq_none_iff : c.find? key = none ↔ ¬c.Stores key := by
  simp [find?, Stores]

theorem stores_of_find?_eq_some (h : c.find? key = some e) : c.Stores key :=
  ⟨e, find?_eq_some h⟩

theorem KeysDiffer.find?_key (h : c.KeysDiffer) (he : e ∈ c.entries) : c.find? e.key = some e := by
  cases hfind : c.find? e.key with
  | none => exact absurd ⟨e, he, rfl⟩ (find?_eq_none_iff.mp hfind)
  | some f =>
    obtain ⟨hf, hkey⟩ := find?_eq_some hfind
    rw [h.eq_of_key_eq hf he hkey]

/-- A key is looked up with success iff its lifetime has not passed. -/
theorem get_eq_some_iff (h : c.KeysDiffer) :
    (c.get now key).1 = some value ↔
      ∃ e ∈ c.entries, e.key = key ∧ e.value = value ∧ c.isLive now e = true := by
  constructor
  · exact exists_entry_of_get
  · rintro ⟨e, he, rfl, rfl, hlive⟩
    rw [get, h.find?_key he]
    dsimp only
    rw [if_pos hlive]

theorem contains_eq_isSome_get (now : Duration) (key : κ) (c : TimedCache κ α) :
    c.contains now key = (c.get now key).1.isSome := by
  unfold contains get
  cases c.find? key with
  | none => rfl
  | some e =>
    dsimp only
    cases c.isLive now e with
    | false => rfl
    | true => rfl

/-! ### What a log tells -/

/-- A command that uses no key leaves the order of uses. -/
theorem idle_cons_of_none (hused : command.used? = none) (key : κ) :
    idle key ((now, command) :: log) = idle key log := by
  rw [idle, uses_cons, hused]
  rfl

theorem idle_cons_self (hused : command.used? = some key) :
    idle key ((now, command) :: log) = 0 := by
  rw [idle, uses_cons, hused]
  exact List.idxOf_cons_self

theorem idle_cons_of_ne (hused : command.used? = some key) (hne : key' ≠ key) :
    idle key' ((now, command) :: log) = idle key' log + 1 := by
  rw [idle, uses_cons, hused]
  exact List.idxOf_cons_ne _ hne.symm

theorem lastPut?_cons_self : lastPut? key ((now, .put key value) :: log) = some (now, value) :=
  if_pos rfl

/-- Only a command that puts the key changes what was last put under it. -/
theorem lastPut?_cons (h : ∀ value, command ≠ .put key value) :
    lastPut? key ((now, command) :: log) = lastPut? key log := by
  cases command with
  | put k value =>
    refine if_neg ?_
    rintro rfl
    exact h value rfl
  | get | contains | erase | clear => rfl

theorem exists_mem_of_lastPut? {putAt : Duration} (h : lastPut? key log = some (putAt, value)) :
    (putAt, .put key value) ∈ log := by
  induction log with
  | nil => cases h
  | cons p log ih =>
    obtain ⟨time, command⟩ := p
    by_cases hput : ∃ v, command = .put key v
    · obtain ⟨v, rfl⟩ := hput
      rw [lastPut?_cons_self] at h
      cases h
      exact List.mem_cons_self
    · push Not at hput
      rw [lastPut?_cons hput] at h
      exact List.mem_cons_of_mem _ (ih h)

/-! ### The invariant -/

/-- The entries are what the log tells, and stand in the order of their last uses. -/
structure Tracks (log : Log κ α) (c : TimedCache κ α) : Prop where
  lastPut : ∀ e ∈ c.entries, lastPut? e.key log = some (e.putAt, e.value)
  order : c.entries.Pairwise fun e f => idle e.key log < idle f.key log
  size_le : c.size ≤ c.limit

namespace Tracks

theorem empty (capacity : ℕ) (ttl : Duration) :
    Tracks [] (.empty capacity ttl : TimedCache κ α) where
  lastPut e he := by cases he
  order := .nil
  size_le := Nat.zero_le _

theorem keysDiffer (h : Tracks log c) : c.KeysDiffer :=
  List.pairwise_map.mpr (h.order.imp fun hlt hkey => by rw [hkey] at hlt; exact lt_irrefl _ hlt)

/-- Entries of which some are left out, after a command that puts none of them. -/
theorem of_sublist {entries : List (Entry κ α)} (h : Tracks log c)
    (hsub : entries.Sublist c.entries)
    (hused : ∀ e ∈ entries, command.used? ≠ some e.key) :
    Tracks ((now, command) :: log) { c with entries := entries } where
  lastPut e he := by
    rw [lastPut?_cons]
    · exact h.lastPut e (hsub.subset he)
    · rintro value rfl
      exact hused e he rfl
  order := by
    refine (h.order.sublist hsub).imp_of_mem fun {e f} he hf hlt => ?_
    cases hkey : command.used? with
    | none =>
      rw [idle_cons_of_none hkey, idle_cons_of_none hkey]
      exact hlt
    | some key =>
      have hne {g : Entry κ α} (hg : g ∈ entries) : g.key ≠ key := by
        rintro rfl
        exact hused g hg hkey
      rw [idle_cons_of_ne hkey (hne he), idle_cons_of_ne hkey (hne hf)]
      exact Nat.succ_lt_succ hlt
  size_le := hsub.length_le.trans h.size_le

/-- The entry of the key that a command uses is put in front. -/
theorem cons (h : Tracks ((now, command) :: log) c) (hused : command.used? = some e.key)
    (hput : lastPut? e.key ((now, command) :: log) = some (e.putAt, e.value))
    (hkeys : ∀ f ∈ c.entries, f.key ≠ e.key) (hroom : c.size < c.limit) :
    Tracks ((now, command) :: log) { c with entries := e :: c.entries } where
  lastPut := List.forall_mem_cons.mpr ⟨hput, h.lastPut⟩
  order := by
    refine List.pairwise_cons.mpr ⟨fun f hf => ?_, h.order⟩
    rw [idle_cons_self hused, idle_cons_of_ne hused (hkeys f hf)]
    exact Nat.succ_pos _
  size_le := hroom

theorem others_sublist (key : κ) (c : TimedCache κ α) : (c.others key).Sublist c.entries :=
  List.filter_sublist

theorem length_others_lt (h : c.Stores key) : (c.others key).length < c.size := by
  obtain ⟨e, he, hkey⟩ := h
  refine List.length_filter_lt_length_iff_exists.mpr ⟨e, he, ?_⟩
  simp [hkey]

/-- The entries without the one of the key that a command uses. -/
theorem others (h : Tracks log c) (hused : command.used? = none ∨ command.used? = some key) :
    Tracks ((now, command) :: log) { c with entries := c.others key } := by
  refine h.of_sublist (others_sublist key c) fun e he hkey => ?_
  rcases hused with hused | hused
  · cases hused.symm.trans hkey
  · cases hused.symm.trans hkey
    exact (mem_others.mp he).2 rfl

theorem get (h : Tracks log c) (now : Duration) (key : κ) :
    Tracks ((now, .get key) :: log) (c.get now key).2 := by
  unfold TimedCache.get
  cases hfind : c.find? key with
  | none =>
    refine h.of_sublist (List.Sublist.refl c.entries) fun e he hkey => ?_
    exact find?_eq_none_iff.mp hfind ⟨e, he, (Option.some.inj hkey).symm⟩
  | some e =>
    obtain ⟨he, rfl⟩ := find?_eq_some hfind
    have hothers : Tracks ((now, .get e.key) :: log) { c with entries := c.others e.key } :=
      h.others (.inr rfl)
    dsimp only
    split_ifs with hlive
    · refine hothers.cons rfl (h.lastPut e he) (fun f hf => (mem_others.mp hf).2) ?_
      exact (length_others_lt ⟨e, he, rfl⟩).trans_le h.size_le
    · exact hothers

theorem put (h : Tracks log c) (now : Duration) (key : κ) (value : α) :
    Tracks ((now, .put key value) :: log) (c.put now key value) := by
  unfold TimedCache.put
  cases hfind : c.find? key with
  | none =>
    have hnew : ∀ f ∈ c.entries, f.key ≠ key := fun f hf hkey =>
      find?_eq_none_iff.mp hfind ⟨f, hf, hkey⟩
    have hkept : Tracks ((now, .put key value) :: log)
        { c with entries := c.entries.take (c.limit - 1) } := by
      refine h.of_sublist (List.take_sublist _ _) fun f hf hkey => ?_
      exact hnew f (List.mem_of_mem_take hf) (Option.some.inj hkey).symm
    refine hkept.cons (e := ⟨key, value, now⟩) rfl lastPut?_cons_self
      (fun f hf => hnew f (List.mem_of_mem_take hf)) ?_
    have hlimit : 1 ≤ c.limit := le_max_right _ _
    show (c.entries.take (c.limit - 1)).length < c.limit
    rw [List.length_take]
    omega
  | some e =>
    have hothers : Tracks ((now, .put key value) :: log) { c with entries := c.others key } :=
      h.others (.inr rfl)
    refine hothers.cons (e := ⟨key, value, now⟩) rfl lastPut?_cons_self
      (fun f hf => (mem_others.mp hf).2) ?_
    exact (length_others_lt (stores_of_find?_eq_some hfind)).trans_le h.size_le

/-- Every command keeps the invariant. -/
theorem run (h : Tracks log c) (now : Duration) (command : Command κ α) :
    Tracks ((now, command) :: log) (command.run now c) := by
  cases command with
  | put key value => exact h.put now key value
  | get key => exact h.get now key
  | contains key => exact h.of_sublist (List.Sublist.refl _) fun e he hkey => by cases hkey
  | erase key => exact h.others (.inl rfl)
  | clear => exact h.of_sublist (List.nil_sublist _) fun e he => by cases he

end Tracks

theorem tracks_after (capacity : ℕ) (ttl : Duration) (log : Log κ α) :
    Tracks log (after capacity ttl log) := by
  induction log with
  | nil => exact .empty capacity ttl
  | cons p log ih => exact ih.run p.1 p.2

/-- No command changes how many entries may be kept and for how long. -/
theorem run_bounds (now : Duration) (command : Command κ α) (c : TimedCache κ α) :
    (command.run now c).capacity = c.capacity ∧ (command.run now c).ttl = c.ttl := by
  cases command with
  | put key value => exact ⟨rfl, rfl⟩
  | get key =>
    show (c.get now key).2.capacity = _ ∧ (c.get now key).2.ttl = _
    unfold get
    split
    · exact ⟨rfl, rfl⟩
    · split
      · exact ⟨rfl, rfl⟩
      · exact ⟨rfl, rfl⟩
  | contains key => exact ⟨rfl, rfl⟩
  | erase key => exact ⟨rfl, rfl⟩
  | clear => exact ⟨rfl, rfl⟩

theorem after_bounds (capacity : ℕ) (ttl : Duration) (log : Log κ α) :
    (after capacity ttl log).capacity = capacity ∧ (after capacity ttl log).ttl = ttl := by
  induction log with
  | nil => exact ⟨rfl, rfl⟩
  | cons p log ih =>
    obtain ⟨hcapacity, httl⟩ := run_bounds p.1 p.2 (after capacity ttl log)
    exact ⟨hcapacity.trans ih.1, httl.trans ih.2⟩

/-! ### Values -/

/-- In a cache that does what its log tells, a lifetime is counted from the last time that the key
was put. -/
theorem Tracks.isLive_iff (h : Tracks log c) (hclock : ∀ p ∈ log, p.1.nanos ≤ now.nanos)
    (he : e ∈ c.entries) :
    c.isLive now e = true ↔ now.nanos < e.putAt.nanos + c.ttl.nanos := by
  have hput : e.putAt.nanos ≤ now.nanos := hclock _ (exists_mem_of_lastPut? (h.lastPut e he))
  rw [TimedCache.isLive_iff]
  omega

theorem Tracks.get_eq_some_iff (h : Tracks log c) (hclock : ∀ p ∈ log, p.1.nanos ≤ now.nanos) :
    (c.get now key).1 = some value ↔ c.Stores key ∧
      ∃ putAt, lastPut? key log = some (putAt, value) ∧
        now.nanos < putAt.nanos + c.ttl.nanos := by
  rw [TimedCache.get_eq_some_iff h.keysDiffer]
  constructor
  · rintro ⟨e, he, rfl, rfl, hlive⟩
    exact ⟨⟨e, he, rfl⟩, e.putAt, h.lastPut e he, (h.isLive_iff hclock he).mp hlive⟩
  · rintro ⟨⟨e, he, rfl⟩, putAt, hput, hlive⟩
    obtain ⟨rfl, rfl⟩ := Prod.mk.inj (Option.some.inj ((h.lastPut e he).symm.trans hput))
    exact ⟨e, he, rfl, rfl, (h.isLive_iff hclock he).mpr hlive⟩

/-- Looking a key up gives no key a longer lifetime. -/
theorem get_of_get (h : c.KeysDiffer) (hget : (c.get now key).2.KeysDiffer)
    (hvalue : ((c.get now key).2.get later key').1 = some value) :
    (c.get later key').1 = some value := by
  obtain ⟨e, he, hkey, hv, hlive⟩ := (get_eq_some_iff hget).mp hvalue
  refine (get_eq_some_iff h).mpr ⟨e, mem_entries_of_get he, hkey, hv, ?_⟩
  have httl : (c.get now key).2.ttl = c.ttl := (run_bounds now (.get key) c).2
  rw [TimedCache.isLive_iff, httl] at hlive
  exact TimedCache.isLive_iff.mpr hlive

/-! ### Keys that are lost -/

theorem stores_others_iff : Stores { c with entries := c.others key' } key ↔
    c.Stores key ∧ key ≠ key' := by
  constructor
  · rintro ⟨e, he, rfl⟩
    exact ⟨⟨e, (mem_others.mp he).1, rfl⟩, (mem_others.mp he).2⟩
  · rintro ⟨⟨e, he, rfl⟩, hne⟩
    exact ⟨e, mem_others.mpr ⟨he, hne⟩, rfl⟩

theorem Stores.not_stores_others_iff (h : c.Stores key) :
    ¬Stores { c with entries := c.others key' } key ↔ key = key' := by
  rw [stores_others_iff, not_and_not_right]
  exact ⟨fun hsame => hsame h, fun hsame _ => hsame⟩

/-- No key is lost where an entry is put in the place of another one with its key. -/
theorem Stores.cons_others (h : c.Stores key) (e : Entry κ α) :
    Stores { c with entries := e :: c.others e.key } key := by
  by_cases hkey : key = e.key
  · exact ⟨e, List.mem_cons_self, hkey.symm⟩
  · obtain ⟨f, hf, hfkey⟩ := stores_others_iff.mpr ⟨h, hkey⟩
    exact ⟨f, List.mem_cons_of_mem _ hf, hfkey⟩

/-- In a full cache the entry that stands last has the key that was used the longest ago. -/
theorem Tracks.stores_take_iff (h : Tracks log c) (hfull : c.size = c.limit)
    (hstores : c.Stores key) :
    Stores { c with entries := c.entries.take (c.limit - 1) } key ↔
      ¬∀ other, c.Stores other → other ≠ key → idle other log < idle key log := by
  have hlimit : 1 ≤ c.limit := le_max_right _ _
  obtain ⟨front, last, hentries⟩ : ∃ front last, c.entries = front ++ [last] := by
    refine ⟨c.entries.dropLast, c.entries.getLast ?_, (List.dropLast_append_getLast _).symm⟩
    exact List.ne_nil_of_length_pos (hlimit.trans hfull.ge)
  have hfront : c.entries.take (c.limit - 1) = front := by
    rw [← hfull, size, hentries, List.length_append, List.length_singleton, Nat.add_sub_cancel,
      List.take_left]
  have horder := h.order
  rw [hentries] at horder
  have hlast : ∀ e ∈ front, idle e.key log < idle last.key log := fun e he =>
    (List.pairwise_append.mp horder).2.2 e he last (List.mem_singleton_self last)
  have hmem {other : κ} : c.Stores other ↔ (∃ e ∈ front, e.key = other) ∨ last.key = other := by
    simp [Stores, hentries, or_and_right, exists_or]
  show (∃ e ∈ c.entries.take (c.limit - 1), e.key = key) ↔ _
  rw [hfront]
  constructor
  · rintro ⟨e, he, rfl⟩ hidle
    have hne : last.key ≠ e.key := fun hkey => (hlast e he).ne (by rw [hkey])
    exact lt_asymm (hlast e he) (hidle last.key (hmem.mpr (.inr rfl)) hne)
  · intro hidle
    rcases hmem.mp hstores with hkept | rfl
    · exact hkept
    · refine absurd (fun other hother hne => ?_) hidle
      rcases hmem.mp hother with ⟨e, he, rfl⟩ | rfl
      · exact hlast e he
      · exact absurd rfl hne

/-- A key is lost by one of the ways that are listed, and by no other. -/
theorem Tracks.not_stores_run_iff (h : Tracks log c) (hclock : ∀ p ∈ log, p.1.nanos ≤ now.nanos)
    (command : Command κ α) (hstores : c.Stores key) :
    ¬(command.run now c).Stores key ↔ Drops log now c command key := by
  cases command with
  | contains k =>
    refine iff_of_false (not_not.mpr hstores) ?_
    rintro ⟨⟩
  | clear =>
    refine iff_of_true ?_ (.clear key)
    rintro ⟨e, he, -⟩
    cases he
  | erase k =>
    show ¬Stores { c with entries := c.others k } key ↔ _
    rw [hstores.not_stores_others_iff]
    constructor
    · rintro rfl
      exact .erase key
    · rintro ⟨⟩
      rfl
  | get k =>
    show ¬Stores (c.get now k).2 key ↔ _
    unfold TimedCache.get
    cases hfind : c.find? k with
    | none =>
      refine iff_of_false (not_not.mpr hstores) ?_
      rintro ⟨⟩
      exact find?_eq_none_iff.mp hfind hstores
    | some e =>
      obtain ⟨he, rfl⟩ := find?_eq_some hfind
      dsimp only
      split_ifs with hlive
      · refine iff_of_false (not_not.mpr (hstores.cons_others e)) fun hdrops => ?_
        cases hdrops with
        | expired hput hpassed =>
          rw [h.lastPut e he] at hput
          cases hput
          rw [h.isLive_iff hclock he] at hlive
          omega
      · have hpassed : e.putAt.nanos + c.ttl.nanos ≤ now.nanos := by
          rw [h.isLive_iff hclock he] at hlive
          omega
        rw [hstores.not_stores_others_iff]
        constructor
        · rintro rfl
          exact .expired (h.lastPut e he) hpassed
        · rintro ⟨⟩
          rfl
  | put new value =>
    show ¬Stores (c.put now new value) key ↔ _
    unfold TimedCache.put
    cases hfind : c.find? new with
    | some e =>
      have hnew := stores_of_find?_eq_some hfind
      refine iff_of_false (not_not.mpr (hstores.cons_others ⟨new, value, now⟩)) ?_
      rintro ⟨⟩
      contradiction
    | none =>
      have hnew := find?_eq_none_iff.mp hfind
      have hne : new ≠ key := fun hkey => hnew (hkey ▸ hstores)
      have hcons :
          Stores { c with entries := ⟨new, value, now⟩ :: c.entries.take (c.limit - 1) } key ↔
            Stores { c with entries := c.entries.take (c.limit - 1) } key := by
        simp [Stores, hne]
      dsimp only
      rw [hcons]
      by_cases hfull : c.size = c.limit
      · rw [h.stores_take_iff hfull hstores, not_not]
        constructor
        · exact .evicted value hnew hfull
        · rintro ⟨⟩
          assumption
      · have hroom : c.entries.length ≤ c.limit - 1 := by
          have hle := h.size_le
          unfold size at hfull hle
          omega
        rw [List.take_of_length_le hroom]
        refine iff_of_false (not_not.mpr hstores) ?_
        rintro ⟨⟩
        contradiction

/-- Only a command that puts a key makes it kept. -/
theorem stores_run_iff (now : Duration) (command : Command κ α) (hnew : ¬c.Stores key) :
    (command.run now c).Stores key ↔ ∃ value, command = .put key value := by
  constructor
  · rintro ⟨e, he, rfl⟩
    have hlost : e ∉ c.entries := fun hmem => hnew ⟨e, hmem, rfl⟩
    cases command with
    | put k value =>
      rcases eq_or_mem_entries_put he with rfl | hmem
      · exact ⟨value, rfl⟩
      · exact absurd hmem hlost
    | get k => exact absurd (mem_entries_of_get he) hlost
    | contains k => exact absurd he hlost
    | erase k => exact absurd (mem_entries_erase.mp he).1 hlost
    | clear => cases he
  · rintro ⟨value, rfl⟩
    exact ⟨_, List.mem_cons_self, rfl⟩

/-! ### Caches in use -/

/-- **Caches in use.**  After any commands, given at times none of which is later than now, a cache
keeps at most as many entries as it may, all with different keys.  A key is looked up with success
iff it is kept and less than the lifetime has passed since it was last put, and the value is the one
that was put then; asking whether it is there says whether it would be.  A key that is kept is lost
only by being cleared or erased, by being looked up too late, or by making room as the one that was
used the longest ago; and only by being put is a key kept that was not.  Looking keys up makes no
lifetime longer, and asking whether they are there changes nothing. -/
theorem after_exact (capacity : ℕ) (ttl : Duration) (log : Log κ α) (now : Duration)
    (hclock : ∀ p ∈ log, p.1.nanos ≤ now.nanos) :
    let c := after capacity ttl log
    c.size ≤ max capacity 1 ∧ (c.entries.map (·.key)).Nodup ∧
    (∀ key value, (c.get now key).1 = some value ↔ c.Stores key ∧
      ∃ putAt, lastPut? key log = some (putAt, value) ∧
        now.nanos < putAt.nanos + ttl.nanos) ∧
    (∀ key, c.contains now key = (c.get now key).1.isSome) ∧
    (∀ (command : Command κ α) key, c.Stores key →
      (¬(command.run now c).Stores key ↔ Drops log now c command key)) ∧
    (∀ (command : Command κ α) key, ¬c.Stores key →
      ((command.run now c).Stores key ↔ ∃ value, command = .put key value)) ∧
    (∀ key later key' value, ((c.get now key).2.get later key').1 = some value →
      (c.get later key').1 = some value) ∧
    ∀ key, (Command.contains key).run now c = c := by
  intro c
  have htracks : Tracks log c := tracks_after capacity ttl log
  obtain ⟨hcapacity, httl⟩ := after_bounds capacity ttl log
  refine ⟨?_, htracks.keysDiffer, ?_, ?_, ?_, ?_, ?_, ?_⟩
  · rw [← hcapacity]
    exact htracks.size_le
  · intro key value
    rw [← httl]
    exact htracks.get_eq_some_iff hclock
  · intro key
    exact contains_eq_isSome_get now key c
  · intro command key hstores
    exact htracks.not_stores_run_iff hclock command hstores
  · intro command key hnew
    exact stores_run_iff now command hnew
  · intro key later key' value hvalue
    exact get_of_get htracks.keysDiffer (htracks.get now key).keysDiffer hvalue
  · intro key
    rfl

/-- The key that was put first and used last is past its lifetime, but it is still kept when the
other one makes room for a new key. -/
theorem after_exact_of_expired :
    let log : Log ℕ ℕ := [(⟨2⟩, .get 1), (⟨1⟩, .put 2 20), (⟨0⟩, .put 1 10)]
    let c := after 2 ⟨3⟩ log
    (∀ p ∈ log, p.1.nanos ≤ 3) ∧ c.contains ⟨3⟩ 1 = false ∧ (c.get ⟨3⟩ 2).1 = some 20 ∧
      (c.put ⟨3⟩ 3 30).Stores 1 ∧ ¬(c.put ⟨3⟩ 3 30).Stores 2 := by
  intro log c
  have hclock : ∀ p ∈ log, p.1.nanos ≤ 3 := by decide
  obtain ⟨-, -, hget, hcontains, hlost, -⟩ := after_exact 2 ⟨3⟩ log ⟨3⟩ hclock
  have hfirst : c.Stores 1 := ⟨⟨1, 10, ⟨0⟩⟩, List.mem_cons_self, rfl⟩
  have hsecond : c.Stores 2 := ⟨⟨2, 20, ⟨1⟩⟩, List.mem_cons_of_mem _ List.mem_cons_self, rfl⟩
  have hkeys : ∀ other, c.Stores other → other = 1 ∨ other = 2 := by
    rintro other ⟨e, he, rfl⟩
    have hentries : e ∈ [_, _] := he
    simp only [List.mem_cons, List.not_mem_nil, or_false] at hentries
    exact hentries.imp (congrArg Entry.key) (congrArg Entry.key)
  have hnew : ¬c.Stores 3 := fun h => by
    rcases hkeys 3 h with h | h
    · cases h
    · cases h
  refine ⟨hclock, ?_, (hget 2 20).mpr ⟨hsecond, ⟨1⟩, rfl, by decide⟩, ?_, ?_⟩
  · rw [hcontains, Option.isSome_eq_false_iff, Option.isNone_iff_eq_none,
      Option.eq_none_iff_forall_ne_some]
    intro value hvalue
    obtain ⟨-, putAt, hput, hlive⟩ := (hget 1 value).mp hvalue
    cases hput
    exact absurd hlive (by decide)
  · by_contra hgone
    cases (hlost (.put 3 30) 1 hfirst).mp hgone with
    | evicted value _ hfull hidle => exact absurd (hidle 2 hsecond (by decide)) (by decide)
  · refine (hlost (.put 3 30) 2 hsecond).mpr (.evicted 30 hnew rfl ?_)
    intro other hother hne
    rcases hkeys other hother with rfl | rfl
    · decide
    · exact absurd rfl hne

end QuorumVault.TimedCache
