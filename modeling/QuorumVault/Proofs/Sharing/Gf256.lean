import Mathlib.Algebra.CharP.Two
import Mathlib.Algebra.Field.Basic
import Mathlib.Tactic
import QuorumVault.Sharing.Gf256

/-!
# The field of 256 elements is a field

`Gf256` is a field of characteristic two under the operations with which shares are computed.

Multiplication is additive in either factor (`add_mul`, `mul_add`), since the shift by `timesX` is.
Every element is a sum of the eight powers of `x` below `x⁸` (`induction_bits`), and a product with
one of these is a repeated shift (`mul_powX`), so that products commute and associate because shifts
do.  Inverses come from `pow_256`.
-/

namespace QuorumVault.Gf256

@[ext] theorem ext {a b : Gf256} (h : a.bits = b.bits) : a = b := by
  cases a; cases b; cases h; rfl

@[simp] theorem bits_add (a b : Gf256) : (a + b).bits = a.bits ^^^ b.bits := rfl

theorem ofByte_injective : Function.Injective ofByte := fun _ _ h => congrArg bits h

/-! ### Addition -/

instance : Neg Gf256 := ⟨id⟩

instance : AddCommGroup Gf256 where
  add_assoc a b c := ext (UInt8.xor_assoc a.bits b.bits c.bits)
  zero_add a := ext UInt8.zero_xor
  add_zero a := ext UInt8.xor_zero
  add_comm a b := ext (UInt8.xor_comm a.bits b.bits)
  neg_add_cancel a := ext UInt8.xor_self
  nsmul := nsmulRec
  zsmul := zsmulRec

theorem add_self_eq_zero (a : Gf256) : a + a = 0 := neg_add_cancel a

/-- What holds of all bytes is checked by number. -/
private theorem forall_byte {p : UInt8 → Prop} (h : ∀ n < 256, p (UInt8.ofNat n)) (b : UInt8) :
    p b := by
  have := h b.toNat b.toNat_lt
  rwa [UInt8.ofNat_toNat] at this

/-- A byte is the sum of its bits. -/
private theorem sum_of_bits (b : UInt8) :
    ((List.range 8).foldr (fun i c => (b &&& (1 <<< UInt8.ofNat i)) ^^^ c) 0) = b := by
  revert b
  exact forall_byte (by decide +kernel)

/-- A bit of a byte is zero or one. -/
private theorem bit_eq_zero_or (b : UInt8) :
    ∀ i < 8, b &&& (1 <<< UInt8.ofNat i) = 0 ∨
      b &&& (1 <<< UInt8.ofNat i) = 1 <<< UInt8.ofNat i := by
  revert b
  exact forall_byte (by decide +kernel)

/-- The power of `x` with an exponent below eight. -/
def powX (i : ℕ) : Gf256 := ⟨1 <<< UInt8.ofNat i⟩

/-- Every element is a sum of powers of `x`. -/
theorem induction_bits {p : Gf256 → Prop} (zero : p 0) (add : ∀ a b, p a → p b → p (a + b))
    (pow : ∀ i < 8, p (powX i)) (a : Gf256) : p a := by
  -- an element is the sum of what is left of it when all bits but one are cleared
  have hsum : ∀ l : List ℕ, (∀ i ∈ l, i < 8) →
      p ⟨l.foldr (fun i c => (a.bits &&& (1 <<< UInt8.ofNat i)) ^^^ c) 0⟩ := by
    intro l
    induction l with
    | nil => exact fun _ => zero
    | cons i l ih =>
      intro hl
      have hi := hl i List.mem_cons_self
      refine add ⟨a.bits &&& (1 <<< UInt8.ofNat i)⟩ _ ?_
        (ih fun j hj => hl j (List.mem_cons_of_mem i hj))
      rcases bit_eq_zero_or a.bits i hi with h | h
      · rw [h]; exact zero
      · rw [h]; exact pow i hi
  have := hsum (List.range 8) fun i hi => List.mem_range.mp hi
  rwa [sum_of_bits] at this

/-! ### Multiplication -/

private theorem and_xor_distrib (a b c : UInt8) : (a ^^^ b) &&& c = (a &&& c) ^^^ (b &&& c) := by
  apply UInt8.toNat_inj.mp
  simp only [UInt8.toNat_and, UInt8.toNat_xor, Nat.and_xor_distrib_right]

theorem timesX_add (a b : Gf256) : (a + b).timesX = a.timesX + b.timesX := by
  have hbit : ∀ c : UInt8, c &&& 0x80 = 0 ∨ c &&& 0x80 = 0x80 := forall_byte (by decide +kernel)
  have comm (s t u v : UInt8) : (s ^^^ t) ^^^ (u ^^^ v) = (s ^^^ u) ^^^ (t ^^^ v) := by
    ac_rfl
  apply ext
  -- whether the highest bit is shifted out of a sum depends on the highest bits of its parts
  simp only [timesX, bits_add, UInt8.shiftLeft_xor, and_xor_distrib]
  rw [comm]
  rcases hbit a.bits with ha | ha <;> rcases hbit b.bits with hb | hb <;> simp [ha, hb]

theorem timesBits_add (n : ℕ) (bits : UInt8) (a b : Gf256) :
    timesBits n bits (a + b) = timesBits n bits a + timesBits n bits b := by
  induction n generalizing bits a b with
  | zero => exact (add_zero 0).symm
  | succ n ih =>
    simp only [timesBits, timesX_add, ih]
    split
    · abel
    · abel

theorem timesBits_xor (n : ℕ) (bits bits' : UInt8) (a : Gf256) :
    timesBits n (bits ^^^ bits') a = timesBits n bits a + timesBits n bits' a := by
  have hbit : ∀ c : UInt8, c &&& 1 = 0 ∨ c &&& 1 = 1 := forall_byte (by decide +kernel)
  induction n generalizing bits bits' a with
  | zero => exact (add_zero 0).symm
  | succ n ih =>
    simp only [timesBits, and_xor_distrib, UInt8.shiftRight_xor, ih]
    rw [add_add_add_comm]
    rcases hbit bits with h | h <;> rcases hbit bits' with h' | h' <;>
      simp [h, h', add_self_eq_zero]

protected theorem add_mul (a b c : Gf256) : (a + b) * c = a * c + b * c :=
  timesBits_add 8 c.bits a b

protected theorem mul_add (a b c : Gf256) : a * (b + c) = a * b + a * c :=
  timesBits_xor 8 b.bits c.bits a

protected theorem mul_zero (a : Gf256) : a * 0 = 0 := by
  have h := Gf256.mul_add a 0 0
  rwa [add_zero, left_eq_add] at h

protected theorem zero_mul (a : Gf256) : 0 * a = 0 := by
  have h := Gf256.add_mul 0 0 a
  rwa [add_zero, left_eq_add] at h

theorem timesBits_zero (n : ℕ) (a : Gf256) : timesBits n 0 a = 0 := by
  induction n generalizing a with
  | zero => rfl
  | succ n ih => exact (zero_add _).trans (ih a.timesX)

theorem timesBits_powX {i n : ℕ} (a : Gf256) (hi : i < n) (hn : n ≤ 8) :
    timesBits n (powX i).bits a = timesX^[i] a := by
  have hshift : ∀ i < 7, (powX (i + 1)).bits &&& 1 = 0 ∧
      (powX (i + 1)).bits >>> 1 = (powX i).bits := by decide
  induction i generalizing n a with
  | zero =>
    obtain ⟨n, rfl⟩ := Nat.exists_eq_add_one.mpr hi
    calc timesBits (n + 1) 1 a = a + timesBits n 0 a.timesX := rfl
      _ = a := by rw [timesBits_zero, add_zero]
  | succ i ih =>
    obtain ⟨n, rfl⟩ := Nat.exists_eq_add_one.mpr (Nat.zero_lt_of_lt hi)
    obtain ⟨hbit, hrest⟩ := hshift i (by omega)
    rw [timesBits, if_pos hbit, zero_add, hrest, ih a.timesX (by omega) (by omega)]
    rfl

/-- A product with a power of `x` is a repeated product with `x`. -/
theorem mul_powX (a : Gf256) {i : ℕ} (hi : i < 8) : a * powX i = timesX^[i] a :=
  timesBits_powX a hi (Nat.le_refl 8)

theorem timesX_mul (a b : Gf256) : a.timesX * b = (a * b).timesX := by
  have hbits (n : ℕ) (bits : UInt8) (a : Gf256) :
      timesBits n bits a.timesX = (timesBits n bits a).timesX := by
    have hzero : timesX 0 = 0 := by decide
    induction n generalizing bits a with
    | zero => exact hzero.symm
    | succ n ih =>
      simp only [timesBits, timesX_add, ih]
      split_ifs
      · rw [hzero]
      · rfl
  exact hbits 8 b.bits a

protected theorem mul_comm (a b : Gf256) : a * b = b * a := by
  have hone : ∀ i < 8, powX i = timesX^[i] 1 := by decide +kernel
  induction a using induction_bits with
  | zero => rw [Gf256.zero_mul, Gf256.mul_zero]
  | add a a' ha ha' => rw [Gf256.add_mul, Gf256.mul_add, ha, ha']
  | pow i hi =>
    induction b using induction_bits with
    | zero => rw [Gf256.zero_mul, Gf256.mul_zero]
    | add b b' hb hb' => rw [Gf256.add_mul, Gf256.mul_add, hb, hb']
    | pow j hj =>
      rw [mul_powX _ hj, mul_powX _ hi, hone i hi, hone j hj, ← Function.iterate_add_apply,
        ← Function.iterate_add_apply, Nat.add_comm]

theorem mul_timesX_iterate (i : ℕ) (a b : Gf256) : a * timesX^[i] b = timesX^[i] (a * b) := by
  induction i with
  | zero => rfl
  | succ i ih =>
    rw [Function.iterate_succ_apply', Function.iterate_succ_apply', Gf256.mul_comm, timesX_mul,
      Gf256.mul_comm, ih]

protected theorem mul_assoc (a b c : Gf256) : a * b * c = a * (b * c) := by
  induction c using induction_bits with
  | zero => simp only [Gf256.mul_zero]
  | add c c' hc hc' => simp only [Gf256.mul_add, hc, hc']
  | pow i hi => rw [mul_powX _ hi, mul_powX _ hi, mul_timesX_iterate]

protected theorem mul_one (a : Gf256) : a * 1 = a := by
  have hone : powX 0 = 1 := by decide
  rw [← hone, mul_powX a (by decide), Function.iterate_zero, id]

instance : CommRing Gf256 where
  left_distrib := Gf256.mul_add
  right_distrib := Gf256.add_mul
  zero_mul := Gf256.zero_mul
  mul_zero := Gf256.mul_zero
  mul_assoc := Gf256.mul_assoc
  mul_comm := Gf256.mul_comm
  one_mul a := (Gf256.mul_comm 1 a).trans (Gf256.mul_one a)
  mul_one := Gf256.mul_one
  zsmul := zsmulRec
  neg_add_cancel := neg_add_cancel

instance : CharP Gf256 2 :=
  CharTwo.of_one_ne_zero_of_two_eq_zero (by decide) (by decide +kernel)

/-! ### Inverses -/

theorem inverse_eq_pow (a : Gf256) : a.inverse = a ^ 254 := by
  simp only [inverse, List.range_succ, List.range_zero, List.nil_append, List.foldl_append,
    List.foldl_cons, List.foldl_nil]
  ring

/-- The map to the power 256 is additive, and it fixes the powers of `x` below `x⁸`. -/
theorem pow_256 (a : Gf256) : a ^ 256 = a := by
  have hpow : ∀ i < 8, (fun a : Gf256 => a * a)^[8] (powX i) = powX i := by decide +kernel
  induction a using induction_bits with
  | zero => exact zero_pow (by decide)
  | add a b ha hb =>
    calc (a + b) ^ 256 = a ^ 256 + b ^ 256 := add_pow_char_pow a b 2 8
      _ = a + b := by rw [ha, hb]
  | pow i hi =>
    calc powX i ^ 256 = (fun a : Gf256 => a * a)^[8] (powX i) := by
          simp only [Function.iterate_succ, Function.comp_apply, Function.iterate_zero, id_eq]
          ring
      _ = powX i := hpow i hi

protected theorem mul_inverse {a : Gf256} (ha : a ≠ 0) : a * a.inverse = 1 := by
  -- the power 255 is idempotent, and only zero and one are
  have idempotent (b : Gf256) : b * b = b → b = 0 ∨ b = 1 := by
    obtain ⟨b⟩ := b
    revert b
    exact forall_byte (by decide +kernel)
  have hpow : a ^ 255 * a ^ 255 = a ^ 255 := by
    calc a ^ 255 * a ^ 255 = a ^ 256 * a ^ 254 := by ring
      _ = a ^ 255 := by rw [pow_256]; ring
  rw [inverse_eq_pow, ← pow_succ']
  rcases idempotent (a ^ 255) hpow with h | h
  · refine absurd ?_ ha
    calc a = a ^ 255 * a := by rw [← pow_succ, pow_256]
      _ = 0 := by rw [h, zero_mul]
  · exact h

/-! ### The field -/

instance : Field Gf256 where
  inv := inverse
  div_eq_mul_inv _ _ := rfl
  exists_pair_ne := ⟨0, 1, by decide⟩
  mul_inv_cancel _ := Gf256.mul_inverse
  inv_zero := by decide +kernel
  nnqsmul := _
  nnqsmul_def _ _ := rfl
  qsmul := _
  qsmul_def _ _ := rfl

/-- The elements are numbered by their bits. -/
def equivFin : Gf256 ≃ Fin UInt8.size where
  toFun a := a.bits.toFin
  invFun n := ⟨UInt8.ofFin n⟩
  left_inv a := ext (UInt8.ofFin_toFin a.bits)
  right_inv n := UInt8.toFin_ofFin n

instance : Fintype Gf256 := .ofEquiv _ equivFin.symm

theorem product_eq_prod (as : List Gf256) : product as = as.prod := (List.prod_eq_foldl ..).symm

end QuorumVault.Gf256
