import QuorumVault.Json.Value
import QuorumVault.Text.Digit

/-!
# JSON texts as far as they can be read

A `Draft` is what a text holds up to its first fault, with the faults in their places. A reader that
visits a draft in order therefore meets a wrong value before a later fault of the text, and the
other way round.

Some faults matter only to a reader that wants the value: a number beyond the range of doubles, or
an escape that names half of a surrogate pair. Such a reader takes the `reading` of a leaf; one that
passes over it looks at `skipping`.

Main definitions: `Document.ofText` reads a text, `Draft.skip` passes over a draft, `Draft.toJson?`
takes all of it, `Draft.ofJson` is the draft of a value.
-/

namespace QuorumVault

/-- A fault of a JSON text. -/
inductive Json.Fault where
  | malformed
  | truncated
deriving DecidableEq

/-- A JSON text as far as it can be read. -/
inductive Draft where
  | absent
  /-- No value can be made out. -/
  | garbled (fault : Json.Fault)
  | null
  | bool (value : Bool)
  | number (reading : Except Json.Fault Json.Number) (skipping : Option Json.Fault)
  | string (reading : Except Json.Fault String) (skipping : Option Json.Fault)
  /-- The items of an array, and the fault that stands in place of its end. -/
  | array (items : List Draft) (close : Option Json.Fault)
  /-- The names and values of an object, and the fault that stands in place of its end. -/
  | object (members : List (Draft × Draft)) (close : Option Json.Fault)
deriving Inhabited

namespace Draft

open Json (Fault)

/-! ### Texts -/

/-- Four hexadecimal digits. Where fewer than four bytes are left, the text has ended early. -/
def hexEscape (chars : List Char) : Except Fault (Nat × List Char) :=
  match chars with
  | a :: b :: c :: d :: rest =>
    match Digit.hex? a, Digit.hex? b, Digit.hex? c, Digit.hex? d with
    | some a, some b, some c, some d => .ok (((a * 16 + b) * 16 + c) * 16 + d, rest)
    | _, _, _, _ => .error .malformed
  | short =>
    let size := short.foldl (fun n c => n + c.utf8Size) 0
    .error (if size < 4 then .truncated else .malformed)

/-- The character behind a backslash, if it is one of those with a letter of their own. -/
def plainEscape? (c : Char) : Option Char :=
  match c with
  | '"' => some '"'
  | '\\' => some '\\'
  | '/' => some '/'
  | 'b' => some '\x08'
  | 'f' => some '\x0c'
  | 'n' => some '\n'
  | 'r' => some '\r'
  | 't' => some '\t'
  | _ => none

/-- The second half of a surrogate pair whose first half is `high`. -/
def lowSurrogate (high : Nat) (chars : List Char) : Except Fault (Char × List Char) :=
  match chars with
  | [] => .error .truncated
  | '\\' :: [] => .error .truncated
  | '\\' :: 'u' :: rest => do
    let (low, rest) ← hexEscape rest
    if 0xdc00 ≤ low ∧ low ≤ 0xdfff then
      .ok (Char.ofNat ((high - 0xd800) * 0x400 + (low - 0xdc00) + 0x10000), rest)
    else .error .malformed
  | _ => .error .malformed

def readEscape (chars : List Char) : Except Fault (Char × List Char) :=
  match chars with
  | [] => .error .truncated
  | 'u' :: rest => do
    let (n, rest) ← hexEscape rest
    if 0xdc00 ≤ n ∧ n ≤ 0xdfff then .error .malformed
    else if 0xd800 ≤ n ∧ n ≤ 0xdbff then lowSurrogate n rest
    else .ok (Char.ofNat n, rest)
  | c :: rest =>
    match plainEscape? c with
    | some c => .ok (c, rest)
    | none => .error .malformed

/-- The characters of a text up to its closing quote, and what follows that. -/
def readString : (fuel : Nat) → List Char → Except Fault (List Char × List Char)
  | 0, _ => .error .truncated
  | fuel + 1, chars =>
    match chars with
    | [] => .error .truncated
    | '"' :: rest => .ok ([], rest)
    | '\\' :: rest => do
      let (c, rest) ← readEscape rest
      let (text, rest) ← readString fuel rest
      .ok (c :: text, rest)
    | c :: rest =>
      if c.toNat < 0x20 then .error .malformed
      else do
        let (text, rest) ← readString fuel rest
        .ok (c :: text, rest)

/-- Passes over a text up to its closing quote, whatever its escapes denote. -/
def skipString : (fuel : Nat) → List Char → Except Fault (List Char)
  | 0, _ => .error .truncated
  | fuel + 1, chars =>
    match chars with
    | [] => .error .truncated
    | '"' :: rest => .ok rest
    | '\\' :: [] => .error .truncated
    | '\\' :: 'u' :: rest => do
      let (_, rest) ← hexEscape rest
      skipString fuel rest
    | '\\' :: c :: rest =>
      if (plainEscape? c).isSome then skipString fuel rest else .error .malformed
    | c :: rest => if c.toNat < 0x20 then .error .malformed else skipString fuel rest

/-! ### Numbers -/

/-- The parts of a number as it is written. -/
structure Literal where
  negative : Bool
  whole : List Nat
  fraction : Option (List Nat)
  exponent : Option Int

def someDigits (chars : List Char) : Except Fault (List Nat × List Char) :=
  match Digit.span chars with
  | ([], []) => .error .truncated
  | ([], _) => .error .malformed
  | found => .ok found

def ofDigits (digits : List Nat) : Nat := digits.foldl (fun n d => 10 * n + d) 0

/-- The digits before the point: no zero stands in front of another digit. -/
def readWhole (chars : List Char) : Except Fault (List Nat × List Char) := do
  let (digits, rest) ← someDigits chars
  match digits with
  | 0 :: _ :: _ => .error .malformed
  | digits => .ok (digits, rest)

def readFraction (chars : List Char) : Except Fault (Option (List Nat) × List Char) :=
  match chars with
  | '.' :: rest => do
    let (digits, rest) ← someDigits rest
    .ok (some digits, rest)
  | chars => .ok (none, chars)

/-- The digits of an exponent with a sign. -/
def readExponentDigits (negative : Bool) (chars : List Char) :
    Except Fault (Option Int × List Char) := do
  let (digits, rest) ← someDigits chars
  let n : Int := ofDigits digits
  .ok (some (if negative then -n else n), rest)

def readExponent (chars : List Char) : Except Fault (Option Int × List Char) :=
  match chars with
  | c :: rest =>
    if c = 'e' ∨ c = 'E' then
      match rest with
      | '+' :: rest => readExponentDigits false rest
      | '-' :: rest => readExponentDigits true rest
      | rest => readExponentDigits false rest
    else .ok (none, chars)
  | [] => .ok (none, [])

def readLiteral (negative : Bool) (chars : List Char) : Except Fault (Literal × List Char) := do
  let (whole, rest) ← readWhole chars
  let (fraction, rest) ← readFraction rest
  let (exponent, rest) ← readExponent rest
  .ok (⟨negative, whole, fraction, exponent⟩, rest)

/-- Adds digits to a significand while it fits into 64 bits; gives those that are left over. -/
def absorb : (significand : Nat) → List Nat → Nat × List Nat
  | s, [] => (s, [])
  | s, d :: rest =>
    if 10 * s + d < 0x10000000000000000 then absorb (10 * s + d) rest else (s, d :: rest)

/-- The number that is written. Without point and exponent it is an integer if it has 64 bits;
otherwise its leading digits that fit into 64 bits are scaled by a power of ten. -/
def Literal.number? (l : Literal) : Option Json.Number :=
  let (significand, dropped) := absorb 0 l.whole
  match l.fraction, l.exponent, dropped with
  | none, none, [] =>
    if l.negative = false then some (.integer significand)
    else if significand = 0 ∨ 0x8000000000000000 < significand then
      (Binary64.ofDecimal? true significand 0).map .decimal
    else some (.integer (-significand))
  | _, _, _ =>
    let digits := l.fraction.getD []
    let (significand, ignored) := absorb significand digits
    let power : Int := dropped.length - (digits.length - ignored.length : Nat) + l.exponent.getD 0
    (Binary64.ofDecimal? l.negative significand power).map .decimal

/-! ### Values -/

/-- White space between the parts of a JSON text. -/
def isSpace (c : Char) : Bool := c == ' ' || c == '\n' || c == '\t' || c == '\r'

/-- The characters after leading white space. -/
def skipSpace (chars : List Char) : List Char := chars.dropWhile isSpace

def readKeyword (value : Draft) : (keyword chars : List Char) → Draft × Option (List Char)
  | [], rest => (value, some rest)
  | _ :: _, [] => (.garbled .truncated, none)
  | k :: keyword, c :: rest =>
    if k = c then readKeyword value keyword rest else (.garbled .malformed, none)

def readNumber (negative : Bool) (chars : List Char) : Draft × Option (List Char) :=
  match readLiteral negative chars with
  | .error fault => (.number (.error fault) (some .malformed), none)
  | .ok (literal, rest) =>
    match literal.number? with
    | some n => (.number (.ok n) none, some rest)
    | none => (.number (.error .malformed) none, some rest)

def readText (fuel : Nat) (chars : List Char) : Draft × Option (List Char) :=
  let reading := (readString fuel chars).map fun (text, _) => String.ofList text
  match skipString fuel chars with
  | .error fault => (.string reading (some fault), none)
  | .ok rest => (.string reading none, some rest)

mutual

/-- A value, and what follows it unless the text cannot be read on. -/
def readValue : (fuel : Nat) → List Char → Draft × Option (List Char)
  | 0, _ => (.absent, none)
  | fuel + 1, chars =>
    match skipSpace chars with
    | [] => (.absent, none)
    | 'n' :: rest => readKeyword .null ['u', 'l', 'l'] rest
    | 't' :: rest => readKeyword (.bool true) ['r', 'u', 'e'] rest
    | 'f' :: rest => readKeyword (.bool false) ['a', 'l', 's', 'e'] rest
    | '"' :: rest => readText fuel rest
    | '[' :: rest =>
      let (items, close, rest) := readItems fuel true rest
      (.array items close, rest)
    | '\x7b' :: rest =>
      let (members, close, rest) := readMembers fuel true rest
      (.object members close, rest)
    | '-' :: rest => readNumber true rest
    | c :: rest =>
      if (Digit.decimal? c).isSome then readNumber false (c :: rest)
      else (.garbled .malformed, none)

/-- The items of an array; `first` tells whether none has been read. -/
def readItems : (fuel : Nat) → (first : Bool) → List Char →
    List Draft × Option Fault × Option (List Char)
  | 0, _, _ => ([], some .truncated, none)
  | fuel + 1, first, chars =>
    match skipSpace chars with
    | [] => ([], some .truncated, none)
    | ']' :: rest => ([], none, some rest)
    | c :: rest =>
      if first then readItem fuel (c :: rest)
      else if c = ',' then readItem fuel rest
      else ([], some .malformed, none)

def readItem : (fuel : Nat) → List Char → List Draft × Option Fault × Option (List Char)
  | 0, _ => ([], some .truncated, none)
  | fuel + 1, chars =>
    match readValue fuel chars with
    | (item, none) => ([item], some .malformed, none)
    | (item, some rest) =>
      let (items, close, rest) := readItems fuel false rest
      (item :: items, close, rest)

/-- The members of an object; `first` tells whether none has been read. -/
def readMembers : (fuel : Nat) → (first : Bool) → List Char →
    List (Draft × Draft) × Option Fault × Option (List Char)
  | 0, _, _ => ([], some .truncated, none)
  | fuel + 1, first, chars =>
    match skipSpace chars with
    | [] => ([], some .truncated, none)
    | '\x7d' :: rest => ([], none, some rest)
    | c :: rest =>
      if first then readMember fuel (c :: rest)
      else if c = ',' then readMember fuel rest
      else ([], some .malformed, none)

def readMember : (fuel : Nat) → List Char → List (Draft × Draft) × Option Fault × Option (List Char)
  | 0, _ => ([], some .truncated, none)
  | fuel + 1, chars =>
    match readValue fuel chars with
    | (.string reading none, some rest) =>
      match skipSpace rest with
      | [] => ([(.string reading none, .absent)], some .truncated, none)
      | ':' :: rest =>
        match readValue fuel rest with
        | (value, none) => ([(.string reading none, value)], some .malformed, none)
        | (value, some rest) =>
          let (members, close, rest) := readMembers fuel false rest
          ((.string reading none, value) :: members, close, rest)
      | _ => ([(.string reading none, .garbled .malformed)], some .malformed, none)
    | (name, _) => ([(name, .absent)], some .malformed, none)

end

end Draft

/-- A text that holds one value. -/
structure Document where
  root : Draft
  /-- The fault behind it. -/
  trailing : Option Json.Fault

def Document.ofText (text : String) : Document :=
  let chars := text.toList
  match Draft.readValue (3 * chars.length + 3) chars with
  | (root, none) => ⟨root, none⟩
  | (root, some rest) =>
    ⟨root, if (Draft.skipSpace rest).isEmpty then none else some .malformed⟩

namespace Draft

open Json (Fault)

/-! ### Passing over a draft -/

def name : Draft → Except Fault String
  | .string reading _ => reading
  | .absent => .error .truncated
  | _ => .error .malformed

mutual

/-- The first fault that is met in passing over a draft. -/
def skip : Draft → Option Fault
  | .absent => some .truncated
  | .garbled fault => some fault
  | .null => none
  | .bool _ => none
  | .number _ skipping => skipping
  | .string _ skipping => skipping
  | .array items close => (skipItems items).or close
  | .object members close => (skipMembers members).or close

def skipItems : List Draft → Option Fault
  | [] => none
  | item :: rest => item.skip.or (skipItems rest)

def skipMembers : List (Draft × Draft) → Option Fault
  | [] => none
  | (name, value) :: rest =>
    match name with
    | .string _ none => value.skip.or (skipMembers rest)
    | .string _ (some fault) => some fault
    | .absent => some .truncated
    | _ => some .malformed

end

/-! ### Taking all of a draft -/

/-- How deep the values that a text holds may be nested. -/
def maxDepth : Nat := 127

mutual

/-- The value of a draft with at most `depth` nested arrays and objects. Members are sorted. -/
def toJson? (depth : Nat) : Draft → Except Fault Json
  | .absent => .error .truncated
  | .garbled fault => .error fault
  | .null => .ok .null
  | .bool b => .ok (.bool b)
  | .number reading _ => reading.map .number
  | .string reading _ => reading.map .string
  | .array items close =>
    match depth with
    | 0 => .error .malformed
    | depth + 1 => do
      let items ← itemsToJson? depth items
      match close with
      | some fault => .error fault
      | none => .ok (.array items)
  | .object members close =>
    match depth with
    | 0 => .error .malformed
    | depth + 1 => do
      let members ← membersToJson? depth members
      match close with
      | some fault => .error fault
      | none => .ok (.object (Json.sorted members))

def itemsToJson? (depth : Nat) : List Draft → Except Fault (List Json)
  | [] => .ok []
  | item :: rest => do
    let item ← item.toJson? depth
    let rest ← itemsToJson? depth rest
    .ok (item :: rest)

def membersToJson? (depth : Nat) : List (Draft × Draft) → Except Fault (List (String × Json))
  | [] => .ok []
  | (name, value) :: rest => do
    let name ← name.name
    let value ← value.toJson? depth
    let rest ← membersToJson? depth rest
    .ok ((name, value) :: rest)

end

mutual

def ofJson : Json → Draft
  | .null => .null
  | .bool b => .bool b
  | .number n => .number (.ok n) none
  | .string s => .string (.ok s) none
  | .array items => .array (itemsOfJson items) none
  | .object members => .object (membersOfJson members) none

def itemsOfJson : List Json → List Draft
  | [] => []
  | item :: rest => ofJson item :: itemsOfJson rest

def membersOfJson : List (String × Json) → List (Draft × Draft)
  | [] => []
  | (name, value) :: rest => (.string (.ok name) none, ofJson value) :: membersOfJson rest

end

end Draft

def Json.ofText? (text : String) : Except Json.Fault Json := do
  let document := Document.ofText text
  let json ← document.root.toJson? Draft.maxDepth
  match document.trailing with
  | some fault => .error fault
  | none => .ok json

end QuorumVault
