import QuorumVault.Text.Numeral

/-!
# Socket addresses

Addresses of hosts in the internet with a port, and their text. An IPv6 address is written with its
longest run of two or more zero groups left out, and one that stands for an IPv4 address with that
at its end. A text may leave out any one run of groups, and may give the last two groups of any IPv6
address as an IPv4 address.
-/

namespace QuorumVault

/-- An IPv4 address. -/
structure Ipv4 where
  a : UInt8
  b : UInt8
  c : UInt8
  d : UInt8
deriving DecidableEq

/-- An IPv6 address. -/
structure Ipv6 where
  /-- The groups of 16 bits, the highest first. -/
  groups : List UInt16
  /-- There are eight of them. -/
  length_groups : groups.length = 8
deriving DecidableEq

/-- The address of a socket. -/
inductive SocketAddress where
  | v4 (host : Ipv4) (port : UInt16)
  /-- On an IPv6 host; the scope tells hosts with the same address apart. -/
  | v6 (host : Ipv6) (scope : UInt32) (port : UInt16)
deriving DecidableEq

/-! ### Writing -/

namespace Ipv4

def chars (host : Ipv4) : List Char :=
  Numeral.write host.a.toNat ++ '.' :: Numeral.write host.b.toNat ++ '.' ::
    Numeral.write host.c.toNat ++ '.' :: Numeral.write host.d.toNat

end Ipv4

namespace Ipv6

/-- The characters of groups with colons between them. -/
def groupsChars : List UInt16 → List Char
  | [] => []
  | [g] => Nat.toDigits 16 g.toNat
  | g :: rest => Nat.toDigits 16 g.toNat ++ ':' :: groupsChars rest

/-- The number of zero groups at the front. -/
def zeros (groups : List UInt16) : Nat := (groups.takeWhile (· = 0)).length

/-- The longest run of zero groups, as its place and length; the first of several. -/
def longestZeros (groups : List UInt16) : Nat × Nat :=
  (List.range groups.length).foldl
    (fun best i => let n := zeros (groups.drop i); if best.2 < n then (i, n) else best) (0, 0)

/-- The IPv4 address that an address stands for. -/
def mapped? (host : Ipv6) : Option Ipv4 :=
  match host.groups with
  | [0, 0, 0, 0, 0, 0xffff, high, low] =>
    some ⟨UInt8.ofNat (high.toNat / 256), UInt8.ofNat high.toNat, UInt8.ofNat (low.toNat / 256),
      UInt8.ofNat low.toNat⟩
  | _ => none

def chars (host : Ipv6) : List Char :=
  match host.mapped? with
  | some v4 => [':', ':', 'f', 'f', 'f', 'f', ':'] ++ v4.chars
  | none =>
    let (start, length) := longestZeros host.groups
    if 1 < length then
      groupsChars (host.groups.take start) ++ ':' :: ':' ::
        groupsChars (host.groups.drop (start + length))
    else groupsChars host.groups

end Ipv6

namespace SocketAddress

def port : SocketAddress → UInt16
  | v4 _ port => port
  | v6 _ _ port => port

/-- Whether the host has an IPv6 address. -/
def isV6 : SocketAddress → Bool
  | v4 _ _ => false
  | v6 _ _ _ => true

/-- The characters of a scope; scope zero is not written. -/
def scopeChars (scope : UInt32) : List Char :=
  if scope = 0 then [] else '%' :: Numeral.write scope.toNat

def chars : SocketAddress → List Char
  | v4 host port => host.chars ++ ':' :: Numeral.write port.toNat
  | v6 host scope port =>
    '[' :: host.chars ++ scopeChars scope ++ ']' :: ':' :: Numeral.write port.toNat

end SocketAddress

/-! ### Reading -/

namespace SocketAddress

/-- The number at the front of a text, in digits with the given values, and what follows it. -/
def number? (radix : Nat) (value? : Char → Option Nat) (chars : List Char) :
    Option (Nat × List Char) :=
  match chars.takeWhile fun c => (value? c).isSome with
  | [] => none
  | digits =>
    some ((digits.filterMap value?).foldl (fun n d => radix * n + d) 0,
      chars.dropWhile fun c => (value? c).isSome)

/-- A decimal number up to `max`. -/
def bounded? (max : Nat) (chars : List Char) : Option (Nat × List Char) :=
  match number? 10 Digit.decimal? chars with
  | some (n, rest) => if n ≤ max then some (n, rest) else none
  | none => none

def after? (c : Char) : List Char → Option (List Char)
  | [] => none
  | d :: rest => if d = c then some rest else none

/-- A byte of an IPv4 address: up to three digits without a zero in front of others. -/
def byte? (chars : List Char) : Option (UInt8 × List Char) :=
  match bounded? 255 chars with
  | some (n, rest) =>
    let length := chars.length - rest.length
    if 3 < length ∨ (chars.head? = some '0' ∧ 1 < length) then none else some (UInt8.ofNat n, rest)
  | none => none

/-- The IPv4 address at the front of a text, and what follows it. -/
def ipv4? (chars : List Char) : Option (Ipv4 × List Char) := do
  let (a, rest) ← byte? chars
  let (b, rest) ← byte? (← after? '.' rest)
  let (c, rest) ← byte? (← after? '.' rest)
  let (d, rest) ← byte? (← after? '.' rest)
  return (⟨a, b, c, d⟩, rest)

/-- A group of an IPv6 address: up to four hexadecimal digits. -/
def group? (chars : List Char) : Option (UInt16 × List Char) :=
  match number? 16 Digit.hex? chars with
  | some (n, rest) => if 4 < chars.length - rest.length then none else some (UInt16.ofNat n, rest)
  | none => none

/-- The two groups that an IPv4 address makes up. -/
def pair (host : Ipv4) : List UInt16 :=
  [UInt16.ofNat (host.a.toNat * 256 + host.b.toNat),
    UInt16.ofNat (host.c.toNat * 256 + host.d.toNat)]

/-- What follows the colon in front of a group, of which the first has none. -/
def separated? (first : Bool) (chars : List Char) : Option (List Char) :=
  if first then some chars else after? ':' chars

/-- Up to `limit` groups, whether the last two were given as an IPv4 address, and what follows. -/
def groups : (limit : Nat) → (first : Bool) → List Char → List UInt16 × Bool × List Char
  | 0, _, chars => ([], false, chars)
  | limit + 1, first, chars =>
    match separated? first chars with
    | none => ([], false, chars)
    | some rest =>
      match if 0 < limit then ipv4? rest else none with
      | some (host, rest) => (pair host, true, rest)
      | none =>
        match group? rest with
        | none => ([], false, chars)
        | some (g, rest) =>
          let (more, embedded, rest) := groups limit false rest
          (g :: more, embedded, rest)

def ofGroups? (groups : List UInt16) : Option Ipv6 :=
  if h : groups.length = 8 then some ⟨groups, h⟩ else none

/-- The IPv6 address at the front of a text, and what follows it. -/
def ipv6? (chars : List Char) : Option (Ipv6 × List Char) := do
  let (front, embedded, rest) := groups 8 true chars
  match ofGroups? front with
  | some host => return (host, rest)
  | none =>
    if embedded then none
    else
      let rest ← after? ':' (← after? ':' rest)
      let (back, _, rest) := groups (7 - front.length) true rest
      let host ← ofGroups? (front ++ List.replicate (8 - front.length - back.length) 0 ++ back)
      return (host, rest)

/-- The scope at the front of a text, which is zero if none is given, and what follows it. -/
def scope? (chars : List Char) : UInt32 × List Char :=
  match after? '%' chars with
  | none => (0, chars)
  | some rest =>
    match bounded? 0xffffffff rest with
    | some (n, rest) => (UInt32.ofNat n, rest)
    | none => (0, chars)

/-- The port that a whole text gives behind a colon. -/
def port? (chars : List Char) : Option UInt16 := do
  let (n, rest) ← bounded? 0xffff (← after? ':' chars)
  if rest.isEmpty then some (UInt16.ofNat n) else none

/-- The address that the characters denote. -/
def ofChars? (chars : List Char) : Option SocketAddress :=
  match ipv4? chars with
  | some (host, rest) => (port? rest).map (.v4 host)
  | none => do
    let (host, rest) ← ipv6? (← after? '[' chars)
    let (scope, rest) := scope? rest
    let port ← port? (← after? ']' rest)
    return .v6 host scope port

end SocketAddress

end QuorumVault
