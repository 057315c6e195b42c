import QuorumVault.Sharing.Gf256
import QuorumVault.Sharing.Share

/-!
# Combining shares

The secret is the value at zero of the polynomials of least degree through all of the shares.
-/

namespace QuorumVault.Sharing

/-- The weight of the value at `x` in the value at zero of a polynomial that is given by its values
at all of `xs`. -/
def weight (xs : List Gf256) (x : Gf256) : Gf256 :=
  let others := xs.filter (· ≠ x)
  Gf256.product others / Gf256.product (others.map (· + x))

/-- The values at zero of the polynomials through the given shares, each of `length` values. -/
def valueAtZero (length : Nat) (shares : List Share) : Bytes :=
  let xs := shares.map fun s => Gf256.ofByte s.index
  let sums := shares.foldl
    (fun acc s =>
      let products := (weight xs (Gf256.ofByte s.index)).multiples
      List.zipWith (fun a b => a + Gf256.productIn products (Gf256.ofByte b)) acc s.bytes)
    (List.replicate length 0)
  sums.map Gf256.toByte

/-- The wording of a threshold that is not met. -/
def needed (threshold : UInt8) (count : Nat) : String := s!"need {threshold} shares, have {count}"

/-- The secret of shares that are at least as many as the threshold, not empty and of one length. -/
def combine (threshold : UInt8) (m : ShareMap) : Except CryptoFault Bytes :=
  let shares := m.shares
  if shares.length < threshold.toNat then .error (.combine (needed threshold shares.length))
  else if shares.any (·.bytes.isEmpty) then
    .error (.share "A Share must be at least 2 bytes long")
  else
    match shares with
    | [] => .error (.combine "Not enough shares to recover original secret")
    | first :: rest =>
      if rest.all fun s => s.bytes.length = first.bytes.length then
        .ok (valueAtZero first.bytes.length shares)
      else .error (.combine "All shares must have the same length")

end QuorumVault.Sharing
