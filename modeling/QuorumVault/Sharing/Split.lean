import QuorumVault.Sharing.Gf256
import QuorumVault.Sharing.Share

/-!
# Splitting a secret

For each byte of the secret the dealer takes a polynomial over the field of 256 elements whose
constant term is that byte and whose other coefficients are random, one fewer than the threshold.
Share `i` holds the values of all the polynomials at `i`.
-/

namespace QuorumVault.Sharing

/-- The value of a polynomial, given by its coefficients from the constant term on. -/
def evaluate (coefficients : List Gf256) (x : Gf256) : Gf256 :=
  coefficients.foldr (fun c acc => c + x * acc) 0

/-- The value of a polynomial at the element whose products are given. -/
def evaluateBy (products : Vector Gf256 256) (coefficients : List Gf256) : Gf256 :=
  coefficients.foldr (fun c acc => c + Gf256.productIn products acc) 0

@[simp] theorem evaluateBy_multiples (x : Gf256) (coefficients : List Gf256) :
    evaluateBy x.multiples coefficients = evaluate coefficients x := by
  simp [evaluateBy, evaluate]

/-- The random choices of a dealer: a coefficient for each place of the secret and each degree from
one on. -/
abbrev Coefficients := (place degree : Nat) → Gf256

/-- The polynomial that hides one byte. -/
def polynomial (threshold : Nat) (constant : Gf256) (coefficient : Nat → Gf256) : List Gf256 :=
  constant :: (List.range (threshold - 1)).map fun i => coefficient (i + 1)

/-- The polynomials that hide a secret. -/
def polynomials (threshold : Nat) (secret : Bytes) (coefficients : Coefficients) :
    List (List Gf256) :=
  secret.mapIdx fun place b => polynomial threshold (Gf256.ofByte b) (coefficients place)

/-- The values of polynomials at an index. -/
def shareAt (polynomials : List (List Gf256)) (index : UInt8) : Share :=
  let products := (Gf256.ofByte index).multiples
  ⟨index, polynomials.map fun p => (evaluateBy products p).toByte⟩

/-- Splits a secret into `count` shares of which any `threshold` reconstruct it. -/
def split (secret : Bytes) (count threshold : UInt8) (coefficients : Coefficients) :
    Except CryptoFault (List Share) :=
  if secret.isEmpty then .error (.split "secret must not be empty")
  else if threshold < 2 ∨ count < threshold then
    .error (.split s!"threshold must satisfy 2 <= T <= N (T={threshold}, N={count})")
  else
    let polynomials := polynomials threshold.toNat secret coefficients
    .ok ((List.range count.toNat).map fun i => shareAt polynomials (UInt8.ofNat (i + 1)))

end QuorumVault.Sharing
