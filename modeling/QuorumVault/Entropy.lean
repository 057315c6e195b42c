import QuorumVault.Bytes

/-!
# Entropy

A source of random bytes as one stream that is used from front to back. A request takes the next
bytes, or takes nothing if fewer are left. Because the bytes at a place of the stream never change
and the place only moves forward, no two requests share a byte.
-/

namespace QuorumVault

/-- A stream of bytes and the place up to which it has been used. -/
structure Entropy where
  byteAt : Nat → UInt8
  /-- The number of bytes, unless the stream is endless. -/
  size : Option Nat
  /-- The number of bytes that have been taken. -/
  position : Nat

namespace Entropy

/-- Whether `n` more bytes can be taken. -/
def canDraw (rng : Entropy) (n : Nat) : Bool :=
  match rng.size with
  | none => true
  | some size => rng.position + n ≤ size

/-- Takes the next `n` bytes. -/
def draw? (n : Nat) (rng : Entropy) : Option (Octets n × Entropy) :=
  if rng.canDraw n then
    some (Octets.ofFn fun i => rng.byteAt (rng.position + i),
      { rng with position := rng.position + n })
  else none

/-- The stream that consists of the given bytes. -/
def ofBytes (bytes : Bytes) : Entropy := ⟨fun i => bytes.getD i 0, some bytes.length, 0⟩

/-! ### Generated streams -/

/-- Scrambles a 64-bit word. -/
def scramble (z : UInt64) : UInt64 :=
  let z := (z ^^^ (z >>> 30)) * 0xbf58476d1ce4e5b9
  let z := (z ^^^ (z >>> 27)) * 0x94d049bb133111eb
  z ^^^ (z >>> 31)

/-- The `i`-th word of the stream that a seed generates: the scrambled seed after `i + 1` steps of a
fixed increment. -/
def generatedWord (seed : UInt64) (i : Nat) : UInt64 :=
  scramble (seed + UInt64.ofNat (i + 1) * 0x9e3779b97f4a7c15)

/-- A byte of a generated stream; each word gives eight bytes, lowest first. -/
def generatedByte (seed : UInt64) (i : Nat) : UInt8 :=
  UInt8.ofNat ((generatedWord seed (i / 8)).toNat / Nat.pow 256 (i % 8))

/-- The stream that consists of the given bytes and then of those that a seed generates. -/
def generated (bytes : Bytes) (seed : UInt64) : Entropy :=
  ⟨fun i => if i < bytes.length then bytes.getD i 0 else generatedByte seed (i - bytes.length),
    none, 0⟩

end Entropy

/-- Why an operation that draws random bytes delivers nothing. -/
inductive Setback (ε : Type) where
  /-- It was tried and failed for a cause. -/
  | fault (cause : ε)
  /-- The source of randomness could not supply a private key. -/
  | exhausted

/-- The same setback with its cause as seen from outside. -/
def Setback.map {ε δ : Type} (f : ε → δ) : Setback ε → Setback δ
  | fault cause => fault (f cause)
  | exhausted => exhausted

/-- An operation that draws random bytes. What it has drawn stays drawn if it fails. -/
abbrev Drawing (ε α : Type) := ExceptT (Setback ε) (StateM Entropy) α

namespace Drawing

variable {ε δ α : Type}

/-- Draws `n` bytes. -/
def octets (n : Nat) (setback : Setback ε) : Drawing ε (Octets n) := fun rng =>
  match rng.draw? n with
  | some (octets, rng) => (.ok octets, rng)
  | none => (.error setback, rng)

/-- The result of a computation that draws nothing. -/
def ofExcept (result : Except ε α) : Drawing ε α := fun rng => (result.mapError .fault, rng)

/-- The same operation with its causes of failure as seen from outside. -/
def mapFault (f : ε → δ) (d : Drawing ε α) : Drawing δ α := fun rng =>
  match d rng with
  | (.ok a, rng) => (.ok a, rng)
  | (.error setback, rng) => (.error (setback.map f), rng)

end Drawing

end QuorumVault
