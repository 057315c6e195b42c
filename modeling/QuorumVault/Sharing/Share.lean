import QuorumVault.Bytes
import QuorumVault.Key.CryptoFault

/-!
# Shares

A share of a secret is a point of the polynomials that hide it: an index, and for each byte of the
secret one value at that index. Index zero would be the secret itself and is reserved.
-/

namespace QuorumVault

/-- A share of a secret. -/
structure Share where
  /-- The place at which the polynomials are evaluated. -/
  index : UInt8
  bytes : Bytes
deriving DecidableEq

namespace Share

def toBytes (share : Share) : Bytes := share.index :: share.bytes

/-- The share that `toBytes` writes. -/
def ofBytes? : Bytes → Except CryptoFault Share
  | [] => .error (.share "share must be at least 2 bytes, got 0")
  | index :: bytes =>
    if index = 0 then .error (.share "index 0 is reserved")
    else if bytes.isEmpty then .error (.share "share must be at least 2 bytes, got 1")
    else .ok ⟨index, bytes⟩

/-- How a share is shown; its values are not. -/
def shown (share : Share) : String :=
  s!"Share \x7b index: {share.index}, len: {share.bytes.length} \x7d"

end Share

/-! ### Collected shares -/

/-- Shares by their index, at most one for each. -/
structure ShareMap where
  get? : UInt8 → Option Bytes

namespace ShareMap

def empty : ShareMap := ⟨fun _ => none⟩

/-- Puts a share in the place of one with the same index. -/
def insert (m : ShareMap) (share : Share) : ShareMap :=
  ⟨fun index => if index = share.index then some share.bytes else m.get? index⟩

/-- Puts all shares of a map in the places of those with the same indices. -/
def extend (m taken : ShareMap) : ShareMap :=
  ⟨fun index => (taken.get? index).or (m.get? index)⟩

/-- Whether there is a share with an index. -/
def contains (m : ShareMap) (index : UInt8) : Bool := (m.get? index).isSome

def indices : List UInt8 := (List.range 256).map UInt8.ofNat

/-- The shares in the order of their indices. -/
def shares (m : ShareMap) : List Share :=
  indices.filterMap fun index => (m.get? index).map (Share.mk index)

def size (m : ShareMap) : Nat := m.shares.length

/-- The map that holds the given shares; a later one replaces an earlier one. -/
def ofList (shares : List Share) : ShareMap := shares.foldl insert empty

theorem ext {m n : ShareMap} (h : ∀ index, m.get? index = n.get? index) : m = n := by
  cases m; cases n; congr; exact funext h

end ShareMap

end QuorumVault
