import QuorumVault.Text.Digit

/-!
# Decimal numerals

Reading a numeral that has to stay below a bound. A plus sign may stand in front; leading zeros are
allowed; the first fault from the left is reported.
-/

namespace QuorumVault

/-- Why a text is no numeral. -/
inductive Numeral.Fault where
  | empty
  | invalidDigit
  | tooLarge
deriving DecidableEq

namespace Numeral

def Fault.message : Fault → String
  | .empty => "cannot parse integer from empty string"
  | .invalidDigit => "invalid digit found in string"
  | .tooLarge => "number too large to fit in target type"

/-- Reads digits after those that make up `value`. -/
def readDigits (max : Nat) : (value : Nat) → List Char → Except Fault Nat
  | value, [] => .ok value
  | value, c :: rest =>
    match Digit.decimal? c with
    | none => .error .invalidDigit
    | some d =>
      if max < 10 * value + d then .error .tooLarge else readDigits max (10 * value + d) rest

/-- The number up to `max` that the characters denote. -/
def read (max : Nat) : List Char → Except Fault Nat
  | [] => .error .empty
  | ['+'] => .error .invalidDigit
  | '+' :: digits => readDigits max 0 digits
  | digits => readDigits max 0 digits

def write (n : Nat) : List Char := Nat.toDigits 10 n

end Numeral

end QuorumVault
