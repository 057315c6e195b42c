import Mathlib.Tactic
import QuorumVault.Bytes

/-!
# Numbers written in bytes

A number is read back from its bytes modulo the power of 256 that they can hold
(`toNatLE_ofNatLE`), and a byte string is the one that is written for the number that it gives
(`ofNatLE_toNatLE`).  Both hold in either order of the bytes.
-/

namespace QuorumVault.Bytes

theorem toNatLE_cons (b : UInt8) (bytes : Bytes) :
    toNatLE (b :: bytes) = b.toNat + 256 * toNatLE bytes := rfl

/-- `w` bytes hold the numbers below `256 ^ w`. -/
theorem toNatLE_lt (bytes : Bytes) : toNatLE bytes < 256 ^ bytes.length := by
  induction bytes with
  | nil => simp [toNatLE]
  | cons b bytes ih =>
    have hb := b.toNat_lt
    rw [toNatLE_cons, List.length_cons, pow_succ]
    omega

theorem toNatLE_ofNatLE (width n : ℕ) : toNatLE (ofNatLE width n) = n % 256 ^ width := by
  induction width generalizing n with
  | zero => simp [ofNatLE, toNatLE, Nat.mod_one]
  | succ width ih =>
    have hpow : 256 ^ (width + 1) = 256 * 256 ^ width := pow_succ' 256 width
    rw [ofNatLE, toNatLE_cons, ih, UInt8.toNat_ofNat', hpow, Nat.mod_mul]

theorem ofNatLE_toNatLE (bytes : Bytes) : ofNatLE bytes.length (toNatLE bytes) = bytes := by
  induction bytes with
  | nil => rfl
  | cons b bytes ih =>
    have hb := b.toNat_lt
    have hlow : UInt8.ofNat (b.toNat + 256 * toNatLE bytes) = b := by
      apply UInt8.toNat_inj.mp
      rw [UInt8.toNat_ofNat']
      omega
    have hhigh : (b.toNat + 256 * toNatLE bytes) / 256 = toNatLE bytes := by omega
    rw [toNatLE_cons, List.length_cons, ofNatLE, hlow, hhigh, ih]

theorem toNatBE_lt (bytes : Bytes) : toNatBE bytes < 256 ^ bytes.length := by
  have := toNatLE_lt bytes.reverse
  rwa [List.length_reverse] at this

theorem toNatBE_ofNatBE (width n : ℕ) : toNatBE (ofNatBE width n) = n % 256 ^ width := by
  rw [toNatBE, ofNatBE, List.reverse_reverse, toNatLE_ofNatLE]

theorem ofNatBE_toNatBE (bytes : Bytes) : ofNatBE bytes.length (toNatBE bytes) = bytes := by
  have := ofNatLE_toNatLE bytes.reverse
  rw [List.length_reverse] at this
  rw [ofNatBE, toNatBE, this, List.reverse_reverse]

end QuorumVault.Bytes
