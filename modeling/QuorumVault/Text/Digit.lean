/-!
# Digits

The values of decimal and hexadecimal digits, and the lowercase hexadecimal digit of a value.
-/

namespace QuorumVault.Digit

def decimal? (c : Char) : Option Nat := if '0' ≤ c ∧ c ≤ '9' then some (c.toNat - 48) else none

/-- The value of a hexadecimal digit in lower case. -/
def lowerHex? (c : Char) : Option Nat :=
  if 'a' ≤ c ∧ c ≤ 'f' then some (c.toNat - 87) else decimal? c

/-- The value of a hexadecimal digit of either case. -/
def hex? (c : Char) : Option Nat :=
  if 'A' ≤ c ∧ c ≤ 'F' then some (c.toNat - 55) else lowerHex? c

/-- The lowercase hexadecimal digit of a number below sixteen. -/
def hex (n : Nat) : Char := Char.ofNat (if n < 10 then 48 + n else 87 + n)

/-- The digits at the front of a text and what follows them. -/
def span (chars : List Char) : List Nat × List Char :=
  (chars.takeWhile (fun c => (decimal? c).isSome) |>.filterMap decimal?,
    chars.dropWhile fun c => (decimal? c).isSome)

end QuorumVault.Digit
