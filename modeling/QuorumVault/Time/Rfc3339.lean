import QuorumVault.Time.Instant
import QuorumVault.Text.Blank
import QuorumVault.Text.Digit

/-!
# Timestamps as text

Timestamps are written as in RFC 3339, in UTC, with the shortest of no, three, six and nine digits
of fraction that loses nothing, and with a sign and at least four digits for years outside 0 to
9999. Reading is more lenient: it allows white space between the parts, other offsets and either
case of the letters.
-/

namespace QuorumVault.Timestamp

/-! ### The calendar -/

/-- A day of the Gregorian calendar. -/
structure Date where
  /-- The year; 0 is the year before 1. -/
  year : Int
  /-- The month from 1 to 12. -/
  month : Nat
  /-- The day of the month from 1. -/
  day : Nat
deriving DecidableEq

/-- The date of a day that is counted from the first of January 1970. Years are taken to begin in
March, so that the leap day is the last of a year. -/
def Date.ofDays (days : Int) : Date :=
  let shifted := days + 719468
  let era := shifted / 146097
  let dayOfEra := (shifted % 146097).toNat
  let yearOfEra := (dayOfEra - dayOfEra / 1460 + dayOfEra / 36524 - dayOfEra / 146096) / 365
  let dayOfYear := dayOfEra - (365 * yearOfEra + yearOfEra / 4 - yearOfEra / 100)
  let part := (5 * dayOfYear + 2) / 153
  let day := dayOfYear - (153 * part + 2) / 5 + 1
  let month := if part < 10 then part + 3 else part - 9
  ⟨yearOfEra + era * 400 + (if month ≤ 2 then 1 else 0), month, day⟩

/-- The count of a date's day from the first of January 1970. -/
def Date.toDays (d : Date) : Int :=
  let year := d.year - (if d.month ≤ 2 then 1 else 0)
  let era := year / 400
  let yearOfEra := (year % 400).toNat
  let dayOfYear := (153 * (if 2 < d.month then d.month - 3 else d.month + 9) + 2) / 5 + d.day - 1
  let dayOfEra := yearOfEra * 365 + yearOfEra / 4 - yearOfEra / 100 + dayOfYear
  era * 146097 + dayOfEra - 719468

def isLeapYear (year : Int) : Bool := year % 4 == 0 && (year % 100 != 0 || year % 400 == 0)

def daysInMonth (year : Int) (month : Nat) : Nat :=
  if month = 2 then (if isLeapYear year then 29 else 28)
  else if month = 4 ∨ month = 6 ∨ month = 9 ∨ month = 11 then 30
  else 31

/-! ### Writing -/

/-- A number with leading zeros up to `width` digits. -/
def zeroPadded (width n : Nat) : List Char :=
  let digits := Nat.toDigits 10 n
  List.replicate (width - digits.length) '0' ++ digits

/-- The year: four digits, or a sign and at least four. -/
def yearText (year : Int) : List Char :=
  if 0 ≤ year ∧ year ≤ 9999 then zeroPadded 4 year.toNat
  else (if year < 0 then '-' else '+') :: zeroPadded 4 year.natAbs

def fractionText (nanos : Nat) : List Char :=
  if nanos = 0 then []
  else if nanos % 1000000 = 0 then '.' :: zeroPadded 3 (nanos / 1000000)
  else if nanos % 1000 = 0 then '.' :: zeroPadded 6 (nanos / 1000)
  else '.' :: zeroPadded 9 nanos

def chars (t : Timestamp) : List Char :=
  let date := Date.ofDays (t.seconds / 86400)
  let ofDay := (t.seconds % 86400).toNat
  let leap := 1000000000 ≤ t.nanos
  let second := ofDay % 60 + (if leap then 1 else 0)
  let nanos := if leap then t.nanos - 1000000000 else t.nanos
  yearText date.year ++ '-' :: zeroPadded 2 date.month ++ '-' :: zeroPadded 2 date.day ++
    'T' :: zeroPadded 2 (ofDay / 3600) ++ ':' :: zeroPadded 2 (ofDay / 60 % 60) ++
      ':' :: zeroPadded 2 second ++ fractionText nanos ++ ['Z']

def text (t : Timestamp) : String := String.ofList t.chars

/-! ### Reading -/

/-- Why a text is no timestamp. -/
inductive Fault where
  | outOfRange
  | impossible
  | invalid
  | tooShort
  | tooLong
deriving DecidableEq

def Fault.message : Fault → String
  | .outOfRange => "input is out of range"
  | .impossible => "no possible date and time matching input"
  | .invalid => "input contains invalid characters"
  | .tooShort => "premature end of input"
  | .tooLong => "trailing input"

/-- Up to `max` digits after those that make up `value`. -/
def moreDigits : (max value : Nat) → List Char → Except Fault (Nat × List Char)
  | 0, value, chars => .ok (value, chars)
  | _ + 1, value, [] => .ok (value, [])
  | max + 1, value, c :: rest =>
    match Digit.decimal? c with
    | none => .ok (value, c :: rest)
    | some d =>
      if 0x8000000000000000 ≤ 10 * value + d then .error .outOfRange
      else moreDigits max (10 * value + d) rest

/-- One to `max` digits. -/
def digits (max : Nat) (chars : List Char) : Except Fault (Nat × List Char) :=
  match chars with
  | [] => .error .tooShort
  | c :: _ => if (Digit.decimal? c).isSome then moreDigits max 0 chars else .error .invalid

/-- A part of up to two digits from `low` to `high`, with white space allowed before it. -/
def part (low high : Nat) (chars : List Char) : Except Fault (Nat × List Char) := do
  let (n, rest) ← digits 2 (Text.dropBlank chars)
  if low ≤ n ∧ n ≤ high then .ok (n, rest) else .error .outOfRange

/-- A year of 32 bits: up to four digits, or a sign and any number of them. -/
def readYear (chars : List Char) : Except Fault (Int × List Char) := do
  let (year, rest) ←
    match Text.dropBlank chars with
    | '-' :: rest => do
      let (n, rest) ← digits rest.length rest
      pure (-(n : Int), rest)
    | '+' :: rest => do
      let (n, rest) ← digits rest.length rest
      pure ((n : Int), rest)
    | chars => do
      let (n, rest) ← digits 4 chars
      pure ((n : Int), rest)
  if -0x80000000 ≤ year ∧ year < 0x80000000 then .ok (year, rest) else .error .outOfRange

/-- A separator, with white space allowed before it. -/
def separator (c : Char) (chars : List Char) : Except Fault (List Char) :=
  match Text.dropBlank chars with
  | [] => .error .tooShort
  | d :: rest => if d = c then .ok rest else .error .invalid

/-- The letter or the space between date and time. -/
def dayEnd (chars : List Char) : Except Fault (List Char) :=
  match chars with
  | [] => .error .tooShort
  | c :: rest => if c = 't' ∨ c = 'T' ∨ c = ' ' then .ok rest else .error .invalid

/-- A fraction of a second in nanoseconds; digits after the ninth are dropped. -/
def readFraction (chars : List Char) : Except Fault (Nat × List Char) :=
  match chars with
  | '.' :: rest => do
    let (n, tail) ← digits 9 rest
    .ok (n * Nat.pow 10 (9 - (rest.length - tail.length)),
      tail.dropWhile fun c => (Digit.decimal? c).isSome)
  | chars => .ok (0, chars)

/-- Two digits that are not followed up. -/
def twoDigits (chars : List Char) : Except Fault (Nat × List Char) :=
  match chars with
  | a :: b :: rest =>
    match Digit.decimal? a, Digit.decimal? b with
    | some a, some b => .ok (10 * a + b, rest)
    | _, _ => .error .invalid
  | [a] => .error (if a.utf8Size < 2 then .tooShort else .invalid)
  | [] => .error .tooShort

/-- Hours and minutes of an offset in seconds; colons and white space may stand between them. -/
def readOffset (chars : List Char) : Except Fault (Nat × List Char) := do
  let (hours, rest) ← twoDigits chars
  let rest := rest.dropWhile fun c => c == ':' || Text.isBlank c
  let (minutes, rest) ← twoDigits rest
  if 60 ≤ minutes then .error .outOfRange else .ok (hours * 3600 + minutes * 60, rest)

/-- The offset of the local time from UTC: a letter, the name of UTC, or a sign with hours and
minutes. -/
def readZone (chars : List Char) : Except Fault (Int × List Char) :=
  match chars with
  | [] => .error .tooShort
  | c :: rest =>
    if (chars.take 3).map Char.toLower = ['u', 't', 'c'] then .ok (0, chars.drop 3)
    else if c = 'z' ∨ c = 'Z' then .ok (0, rest)
    else if c = '+' then do
      let (n, rest) ← readOffset rest
      .ok ((n : Int), rest)
    else if c = '-' ∨ c.toNat = 0x2212 then do
      let (n, rest) ← readOffset rest
      .ok (-(n : Int), rest)
    else .error .invalid

/-- The timestamp of a local time with an offset from UTC. -/
def ofLocal (date : Date) (secondOfDay nanos : Nat) (offset : Int) : Except Fault Timestamp :=
  if date.year < -262143 ∨ 262142 < date.year ∨ daysInMonth date.year date.month < date.day then
    .error .outOfRange
  else if offset ≤ -86400 ∨ 86400 ≤ offset then .error .outOfRange
  else
    let seconds := date.toDays * 86400 + secondOfDay - offset
    if minSeconds ≤ seconds ∧ seconds ≤ maxSeconds then .ok ⟨seconds, nanos⟩ else .error .impossible

/-- The timestamp that the characters denote. -/
def ofChars? (chars : List Char) : Except Fault Timestamp := do
  let (year, chars) ← readYear chars
  let (month, chars) ← part 1 12 (← separator '-' chars)
  let (day, chars) ← part 1 31 (← separator '-' chars)
  let (hour, chars) ← part 0 23 (← dayEnd chars)
  let (minute, chars) ← part 0 59 (← separator ':' chars)
  let (second, chars) ← part 0 60 (← separator ':' chars)
  let (fraction, chars) ← readFraction chars
  let (offset, chars) ← readZone (Text.dropBlank chars)
  -- the last second of a leap minute goes on for another one
  let (second, nanos) := if second = 60 then (59, fraction + 1000000000) else (second, fraction)
  if (Text.dropBlank chars).isEmpty then
    ofLocal ⟨year, month, day⟩ (hour * 3600 + minute * 60 + second) nanos offset
  else .error .tooLong

def ofText? (text : String) : Except Fault Timestamp := ofChars? text.toList

end QuorumVault.Timestamp
