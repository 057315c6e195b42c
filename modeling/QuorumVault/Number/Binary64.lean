/-!
# Double precision

Finite numbers of IEEE 754 double precision, kept exactly as a sign, a mantissa and a power of two.
`Binary64.round?` gives the number nearest to a quotient; `Binary64.ofDecimal?` reads a decimal by
one correctly rounded multiplication or division by a power of ten.
-/

namespace QuorumVault

/-- The number `± mantissa * 2 ^ exponent`. The mantissa has 53 bits, or fewer with the least
exponent, `-1074`. -/
structure Binary64 where
  /-- The sign, which zero has too. -/
  negative : Bool
  mantissa : Nat
  exponent : Int
deriving DecidableEq

namespace Binary64

def zero (negative : Bool) : Binary64 := ⟨negative, 0, -1074⟩

/-- The integer nearest to a quotient; a tie goes to the even one. -/
def nearestQuotient (numerator denominator : Nat) : Nat :=
  let q := numerator / denominator
  let r := numerator % denominator
  if 2 * r < denominator then q
  else if denominator < 2 * r then q + 1
  else q + q % 2

/-- The integer nearest to a quotient that is divided by a power of two. -/
def nearestScaled (numerator denominator : Nat) (exponent : Int) : Nat :=
  nearestQuotient (numerator * Nat.pow 2 (-exponent).toNat) (denominator * Nat.pow 2 exponent.toNat)

/-- The number nearest to a quotient, or nothing if that is beyond the greatest finite number. -/
def round? (negative : Bool) (numerator denominator : Nat) : Option Binary64 :=
  if numerator = 0 then some (zero negative)
  else
    let estimate : Int := (numerator.log2 : Int) - denominator.log2 - 53
    let wide := numerator * Nat.pow 2 (-estimate).toNat / (denominator * Nat.pow 2 estimate.toNat)
    let exponent := max (if 0x20000000000000 ≤ wide then estimate + 1 else estimate) (-1074)
    let mantissa := nearestScaled numerator denominator exponent
    let (mantissa, exponent) :=
      if mantissa = 0x20000000000000 then (0x10000000000000, exponent + 1) else (mantissa, exponent)
    if exponent ≤ 971 then some ⟨negative, mantissa, exponent⟩ else none

def numerator (x : Binary64) : Nat := x.mantissa * Nat.pow 2 x.exponent.toNat

def denominator (x : Binary64) : Nat := Nat.pow 2 (-x.exponent).toNat

/-- The number nearest to a power of ten, up to `10 ^ 308`. -/
def powerOfTen (n : Nat) : Binary64 := (round? false (Nat.pow 10 n) 1).getD (zero false)

/-- The rounded product with a power of ten. -/
def timesTen? (x : Binary64) (n : Nat) : Option Binary64 :=
  let p := powerOfTen n
  round? x.negative (x.numerator * p.numerator) (x.denominator * p.denominator)

/-- The rounded quotient by a power of ten. -/
def overTen? (x : Binary64) (n : Nat) : Option Binary64 :=
  let p := powerOfTen n
  round? x.negative (x.numerator * p.denominator) (x.denominator * p.numerator)

/-- Reads `± significand * 10 ^ exponent`: the significand is rounded, then multiplied or divided by
the power of ten, in two divisions where the power is beyond `10 ^ 308`. There is no answer beyond
the greatest finite number. -/
def ofDecimal? (negative : Bool) (significand : Nat) (exponent : Int) : Option Binary64 := do
  let x ← round? negative significand 1
  if x.mantissa = 0 then some x
  else if 308 < exponent then none
  else if 0 ≤ exponent then x.timesTen? exponent.toNat
  else if -308 ≤ exponent then x.overTen? (-exponent).toNat
  else if -616 ≤ exponent then (← x.overTen? 308).overTen? (-exponent - 308).toNat
  else some (zero negative)

end Binary64

end QuorumVault
