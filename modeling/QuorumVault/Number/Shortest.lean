import QuorumVault.Number.Binary64

/-!
# Shortest decimal text

The decimal text of a double: the fewest digits that read back as the same number, and of those the
nearest. Digits are positional while the point stands at most five places before and sixteen places
behind the first of them, and there is always a fraction then; otherwise an exponent with a sign
follows.
-/

namespace QuorumVault.Binary64

/-! ### The digits -/

/-- Whether `decimal * 10 ^ power` rounds to `x`, a number that is not zero: it lies between the
midpoints to the neighbours, which are included if the mantissa is even. -/
def roundsTo (x : Binary64) (decimal : Nat) (power : Int) : Bool :=
  let low :=
    if x.mantissa = 0x10000000000000 ∧ -1074 < x.exponent then 4 * x.mantissa - 1
    else 4 * x.mantissa - 2
  let high := 4 * x.mantissa + 2
  -- all three over the common unit 2 ^ (exponent - 2) * 10 ^ power
  let unit := Nat.pow 2 (x.exponent - 2).toNat * Nat.pow 10 (-power).toNat
  let value := decimal * Nat.pow 10 power.toNat * Nat.pow 2 (2 - x.exponent).toNat
  if x.mantissa % 2 = 0 then low * unit ≤ value && value ≤ high * unit
  else low * unit < value && value < high * unit

/-- The place of the first digit of a number that is not zero: `0` for units, `-1` for tenths. -/
def leadingPlace (x : Binary64) : Int :=
  let whole := x.numerator / x.denominator
  if 0 < whole then (Nat.toDigits 10 whole).length - 1
  else
    match (List.range 330).find? fun j => x.denominator ≤ x.numerator * Nat.pow 10 (j + 1) with
    | some j => -(j : Int) - 1
    | none => -330

/-- The better of the two neighbours of `x` among the multiples of `10 ^ power`, if one rounds to
`x`. -/
def neighbour? (x : Binary64) (power : Int) : Option Nat :=
  let numerator := x.numerator * Nat.pow 10 (-power).toNat
  let denominator := x.denominator * Nat.pow 10 power.toNat
  let below := numerator / denominator
  let nearest := nearestQuotient numerator denominator
  let other := if nearest = below then below + 1 else below
  if x.roundsTo nearest power then some nearest
  else if x.roundsTo other power then some other
  else none

/-- The shortest digits of a number that is not zero, as an integer and a power of ten. -/
def shortest (x : Binary64) : Nat × Int :=
  let place := x.leadingPlace
  let candidates := (List.range 17).filterMap fun (n : Nat) =>
    (x.neighbour? (place - n)).map fun digits => (digits, place - n)
  let (digits, power) := candidates.headD (x.mantissa, 0)
  -- the upper neighbour on the coarsest grid may be ten
  if digits % 10 = 0 then (digits / 10, power + 1) else (digits, power)

/-! ### The text -/

def exponentText (exponent : Int) : List Char :=
  'e' :: (if exponent < 0 then '-' else '+') :: Nat.toDigits 10 exponent.natAbs

/-- The text of a magnitude from its digits and the power of ten of the last one. -/
def layout (digits : List Char) (power : Int) : List Char :=
  let length : Int := digits.length
  let point := length + power
  if 0 ≤ power ∧ point ≤ 16 then digits ++ List.replicate power.toNat '0' ++ ['.', '0']
  else if 0 < point ∧ point ≤ 16 then digits.take point.toNat ++ '.' :: digits.drop point.toNat
  else if -5 < point ∧ point ≤ 0 then '0' :: '.' :: List.replicate (-point).toNat '0' ++ digits
  else
    match digits with
    | [digit] => digit :: exponentText (point - 1)
    | digits => digits.take 1 ++ '.' :: digits.drop 1 ++ exponentText (point - 1)

def text (x : Binary64) : List Char :=
  let sign := if x.negative then ['-'] else []
  if x.mantissa = 0 then sign ++ ['0', '.', '0']
  else
    let (digits, power) := x.shortest
    sign ++ layout (Nat.toDigits 10 digits) power

end QuorumVault.Binary64
