import Mathlib.NumberTheory.LucasPrimality
import Mathlib.Tactic
import QuorumVault.Curve.X25519

/-!
# The prime of the field

`2²⁵⁵ - 19` is a prime, by Lucas' test: two generates the residues that are not zero.  The test
needs the prime factors of `2²⁵⁵ - 20`, the largest of which are shown to be primes in the same way.

The powers are computed by `powMod`, of which `X25519.pow` is a case.
-/

namespace QuorumVault.X25519

/-! ### Loops over the bits of a number -/

theorem shiftRight_eq_two_mul_add (k i : ℕ) :
    k >>> i = 2 * (k >>> (i + 1)) + (k.testBit i).toNat := by
  rw [Nat.shiftRight_succ, Nat.testBit_eq_decide_div_mod_eq, Nat.shiftRight_eq_div_pow]
  rcases Nat.mod_two_eq_zero_or_one (k / 2 ^ i) with h | h
  · simp [h]
    omega
  · simp [h]
    omega

/-- A loop that takes the bits of a number from the highest one on keeps a property of the number
that the bits so far make up. -/
theorem foldr_testBit {α : Type} {p : ℕ → α → Prop} (step : Bool → α → α)
    (hstep : ∀ k bit x, p k x → p (2 * k + bit.toNat) (step bit x)) (n m : ℕ) {x : α}
    (hx : p (n >>> m) x) : p n ((List.range m).foldr (fun i x => step (n.testBit i) x) x) := by
  -- the fold begins with the highest place, so that its first step is the last one of the list
  induction m generalizing x with
  | zero => simpa using hx
  | succ m ih =>
    rw [List.range_succ, List.foldr_append]
    refine ih ?_
    rw [shiftRight_eq_two_mul_add]
    exact hstep _ _ _ hx

/-! ### Powers -/

/-- Squares, and multiplies for a bit that is set. -/
def powStep (n a : ℕ) (bit : Bool) (acc : ℕ) : ℕ :=
  let square := acc * acc % n
  if bit then square * a % n else square

/-- The power of `a` modulo `n`, for exponents below 2²⁵⁵. -/
def powMod (n a exponent : ℕ) : ℕ :=
  (List.range 255).foldr (fun i acc => powStep n a (exponent.testBit i) acc) 1

theorem pow_eq_powMod (a exponent : ℕ) : pow a exponent = powMod prime a exponent := rfl

theorem cast_powMod (n a : ℕ) {exponent : ℕ} (h : exponent < 2 ^ 255) :
    (powMod n a exponent : ZMod n) = (a : ZMod n) ^ exponent := by
  refine foldr_testBit (p := fun k (acc : ℕ) => (acc : ZMod n) = (a : ZMod n) ^ k) _ ?_ exponent 255
    ?_
  · intro k bit acc hacc
    rw [pow_add, two_mul, pow_add, ← hacc]
    cases bit <;> simp [powStep]
  · rw [Nat.shiftRight_eq_div_pow, Nat.div_eq_of_lt h, pow_zero, Nat.cast_one]

theorem powMod_lt {n : ℕ} (hn : 1 < n) (a exponent : ℕ) : powMod n a exponent < n := by
  refine foldr_testBit (p := fun _ acc => acc < n) _ ?_ exponent 255 hn
  intro k bit acc _
  have hpos : 0 < n := by omega
  cases bit
  · exact Nat.mod_lt _ hpos
  · exact Nat.mod_lt _ hpos

/-! ### Lucas' test -/

/-- A number is a prime if the order of some residue is one less. -/
theorem prime_of_powMod {n a : ℕ} (qs : List ℕ) (hqs : ∀ q ∈ qs, q.Prime) (hprod : qs.prod + 1 = n)
    (hn : n ≤ 2 ^ 255) (hone : powMod n a (n - 1) = 1)
    (hne : ∀ q ∈ qs, powMod n a ((n - 1) / q) ≠ 1) : n.Prime := by
  have hpos : 0 < qs.prod := List.prod_pos fun q hq => (hqs q hq).pos
  have hlt : n - 1 < 2 ^ 255 := by omega
  have hn : 1 < n := by omega
  refine lucas_primality n a ?_ fun q hq hdvd hpow => ?_
  · rw [← cast_powMod n a hlt, hone, Nat.cast_one]
  · -- the prime factors of `n - 1` are those of the list
    have hmem : q ∈ qs := by
      rw [← hprod, Nat.add_sub_cancel] at hdvd
      obtain ⟨r, hr, hdvd⟩ := (Nat.Prime.prime hq).dvd_prod_iff.mp hdvd
      rwa [(Nat.prime_dvd_prime_iff_eq hq (hqs r hr)).mp hdvd]
    refine hne q hmem ?_
    have hcast : (powMod n a ((n - 1) / q) : ZMod n) = ((1 : ℕ) : ZMod n) := by
      rw [cast_powMod n a ((Nat.div_le_self (n - 1) q).trans_lt hlt), hpow, Nat.cast_one]
    rw [ZMod.natCast_eq_natCast_iff', Nat.mod_eq_of_lt (powMod_lt hn a _),
      Nat.mod_eq_of_lt hn] at hcast
    exact hcast

/-- A number to test, with a residue that generates the others and the prime factors of the number
below it. -/
structure LucasTest where
  number : ℕ
  generator : ℕ
  factors : List ℕ

/-- A test is passed if its factors are some primes that are known already. -/
def LucasTest.Passes (t : LucasTest) (primes : List ℕ) : Prop :=
  (∀ q ∈ t.factors, q ∈ primes) ∧ t.factors.prod + 1 = t.number ∧ t.number ≤ 2 ^ 255 ∧
    powMod t.number t.generator (t.number - 1) = 1 ∧
    ∀ q ∈ t.factors, powMod t.number t.generator ((t.number - 1) / q) ≠ 1

instance (t : LucasTest) (primes : List ℕ) : Decidable (t.Passes primes) :=
  inferInstanceAs (Decidable (_ ∧ _))

/-- Tests of which each is passed with the numbers of those after it as primes. -/
def LucasTest.AllPass (primes : List ℕ) : List LucasTest → Prop
  | [] => True
  | t :: tests => t.Passes (tests.map number ++ primes) ∧ AllPass primes tests

instance LucasTest.decidableAllPass (primes : List ℕ) :
    (tests : List LucasTest) → Decidable (AllPass primes tests)
  | [] => instDecidableTrue
  | _ :: tests => @instDecidableAnd _ _ _ (decidableAllPass primes tests)

theorem LucasTest.prime_of_allPass {primes : List ℕ} (hprimes : ∀ q ∈ primes, q.Prime)
    {tests : List LucasTest} (h : AllPass primes tests) : ∀ t ∈ tests, t.number.Prime := by
  induction tests with
  | nil => exact List.forall_mem_nil _
  | cons t tests ih =>
    obtain ⟨⟨hfactors, hprod, hle, hone, hne⟩, htests⟩ := h
    have hqs : ∀ q ∈ t.factors, q.Prime := by
      intro q hq
      rcases List.mem_append.mp (hfactors q hq) with hlater | hknown
      · obtain ⟨later, hmem, rfl⟩ := List.mem_map.mp hlater
        exact ih htests later hmem
      · exact hprimes q hknown
    exact List.forall_mem_cons.mpr ⟨prime_of_powMod t.factors hqs hprod hle hone hne, ih htests⟩

/-! ### The prime and the factors of the number below it -/

/-- The factors that trial division shows to be primes. -/
def smallFactors : List ℕ :=
  [2, 3, 5, 7, 13, 19, 31, 47, 107, 127, 223, 353, 2437, 4153, 57467, 65147, 75707, 132049, 430751,
    569003, 1923133, 8574133]

theorem prime_of_mem_smallFactors : ∀ q ∈ smallFactors, q.Prime := by
  simp only [smallFactors, List.forall_mem_cons]
  norm_num

/-- The prime and its greater factors, with those of a number after it. -/
def lucasTests : List LucasTest :=
  [⟨prime, 2, [2, 2, 3, 65147,
      74058212732561358302231226437062788676166966415465897661863160754340907]⟩,
    ⟨74058212732561358302231226437062788676166966415465897661863160754340907, 2,
      [2, 3, 353, 57467, 132049, 1923133, 31757755568855353, 75445702479781427272750846543864801]⟩,
    ⟨75445702479781427272750846543864801, 7,
      [2, 2, 2, 2, 2, 3, 3, 5, 5, 75707, 72106336199, 1919519569386763]⟩,
    ⟨31757755568855353, 10, [2, 2, 2, 3, 31, 107, 223, 4153, 430751]⟩,
    ⟨1919519569386763, 2, [2, 3, 7, 19, 47, 47, 127, 8574133]⟩,
    ⟨72106336199, 7, [2, 13, 2773320623]⟩,
    ⟨2773320623, 5, [2, 2437, 569003]⟩]

theorem prime_prime : Nat.Prime prime := by
  have hpass : LucasTest.AllPass smallFactors lucasTests := by decide +kernel
  exact LucasTest.prime_of_allPass prime_of_mem_smallFactors hpass _ List.mem_cons_self

instance : Fact (Nat.Prime prime) := ⟨prime_prime⟩

/-! ### Inverses -/

theorem prime_lt : prime < 2 ^ 255 := by decide

theorem cast_inverse (a : ℕ) : (inverse a : ZMod prime) = (a : ZMod prime)⁻¹ := by
  rw [inverse, pow_eq_powMod, cast_powMod prime a ((Nat.sub_le _ _).trans_lt prime_lt)]
  by_cases ha : (a : ZMod prime) = 0
  · rw [ha, inv_zero, zero_pow (by decide)]
  · -- Fermat's little theorem
    refine eq_inv_of_mul_eq_one_left ?_
    rw [← pow_succ, show prime - 2 + 1 = prime - 1 by decide]
    exact ZMod.pow_card_sub_one_eq_one ha

end QuorumVault.X25519
