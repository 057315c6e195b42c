import QuorumVault.Time.Instant

/-!
# Caches with a lifetime

A cache keeps a bounded number of entries. An entry is served until its lifetime has passed, counted
from the last time its value was put there. When a new key is put into a full cache, the entry whose
last use is the longest ago makes room; asking whether a key is there does not count as a use of it.

Times are those of a clock that never goes back.
-/

namespace QuorumVault

/-- A value with its key and the time at which it was put. -/
structure TimedCache.Entry (κ α : Type) where
  key : κ
  value : α
  putAt : Duration

/-- A cache. -/
structure TimedCache (κ α : Type) where
  /-- How many entries may be kept; zero counts as one. -/
  capacity : Nat
  ttl : Duration
  /-- The entries, the last used one first. -/
  entries : List (TimedCache.Entry κ α)

namespace TimedCache

variable {κ α : Type}

def empty (capacity : Nat) (ttl : Duration) : TimedCache κ α := ⟨capacity, ttl, []⟩

def limit (c : TimedCache κ α) : Nat := max c.capacity 1

/-- The number of entries, those past their lifetime included. -/
def size (c : TimedCache κ α) : Nat := c.entries.length

def isLive (c : TimedCache κ α) (now : Duration) (e : Entry κ α) : Bool :=
  now.nanos - e.putAt.nanos < c.ttl.nanos

def clear (c : TimedCache κ α) : TimedCache κ α := { c with entries := [] }

/-! ### Entries by key -/

variable [DecidableEq κ]

/-- The entry of a key, even past its lifetime. -/
def find? (c : TimedCache κ α) (key : κ) : Option (Entry κ α) := c.entries.find? (·.key = key)

def others (c : TimedCache κ α) (key : κ) : List (Entry κ α) := c.entries.filter (·.key ≠ key)

/-- The value of a key, and the cache after this use of it; an entry past its lifetime is dropped.
-/
def get (now : Duration) (key : κ) (c : TimedCache κ α) : Option α × TimedCache κ α :=
  match c.find? key with
  | none => (none, c)
  | some e =>
    if c.isLive now e then (some e.value, { c with entries := e :: c.others key })
    else (none, { c with entries := c.others key })

/-- Whether `get` would give a value. -/
def contains (now : Duration) (key : κ) (c : TimedCache κ α) : Bool :=
  match c.find? key with
  | none => false
  | some e => c.isLive now e

/-- Puts a value. A new key takes the place of the entry that was used the longest ago if the cache
is full. -/
def put (now : Duration) (key : κ) (value : α) (c : TimedCache κ α) : TimedCache κ α :=
  let kept :=
    match c.find? key with
    | some _ => c.others key
    | none => c.entries.take (c.limit - 1)
  { c with entries := ⟨key, value, now⟩ :: kept }

def erase (key : κ) (c : TimedCache κ α) : TimedCache κ α := { c with entries := c.others key }

end TimedCache

end QuorumVault
