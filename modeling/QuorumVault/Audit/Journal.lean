import QuorumVault.Audit.Entry
import QuorumVault.Json.Printer

/-!
# The journal

A journal keeps the last entries that were recorded, up to its capacity, and exports them as lines
of JSON.
-/

namespace QuorumVault

/-- The last entries. -/
structure Journal where
  /-- How many entries may be kept; zero counts as one. -/
  capacity : Nat
  /-- The entries, the oldest first. -/
  entries : List Entry

namespace Journal

def empty (capacity : Nat) : Journal := ⟨capacity, []⟩

def limit (j : Journal) : Nat := max j.capacity 1

def size (j : Journal) : Nat := j.entries.length

/-- Records an entry; in a full journal it takes the place of the oldest one. -/
def record (e : Entry) (j : Journal) : Journal :=
  { j with entries := (if j.entries.length = j.limit then j.entries.drop 1 else j.entries) ++ [e] }

/-- The last `count` entries, the oldest first. -/
def recent (count : Nat) (j : Journal) : List Entry := j.entries.drop (j.entries.length - count)

def kinds (j : Journal) : List EventKind := j.entries.map (·.kind)

def lines (j : Journal) : String :=
  String.join ((j.recent j.limit).map fun e => e.toJson.text ++ "\n")

end Journal

end QuorumVault
