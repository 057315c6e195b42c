import QuorumVault.Json.Draft
import QuorumVault.Text.Base64
import QuorumVault.Text.Quoted

/-!
# Decoding JSON

Readers that make typed values of drafts. A reader visits a draft in the order of its text and
reports the first fault that it meets: one of the text itself, or a `Mismatch` between what is there
and what was expected.

A `Record` is a reader of named members. Members may come in any order and unknown ones are passed
over; a record may also be written as the array of its members' values.

A draft comes either from a text or from a value that was read before, and in a few places the
faults of the two `Form`s differ.
-/

namespace QuorumVault.Decode

/-! ### Faults -/

/-- What stands in place of what was expected. -/
inductive Finding where
  | null
  | bool (value : Bool)
  | integer (value : Int)
  | decimal (value : Binary64)
  | string (value : String)
  | sequence
  | map

def Finding.describe : Finding → String
  | .null => "null"
  | .bool b => s!"boolean `{b}`"
  | .integer i => s!"integer `{i}`"
  | .decimal x => s!"floating point `{String.ofList x.text}`"
  | .string s => s!"string {Text.quoted s}"
  | .sequence => "sequence"
  | .map => "map"

/-- A difference between what a text holds and what was expected. -/
inductive Mismatch where
  | type (found : Finding) (expected : String)
  | value (found : Finding) (expected : String)
  | length (length : Nat) (expected : String)
  | missing (field : String)
  | duplicate (field : String)
  | variant (name : String) (known : List String)
  | content (message : String)

/-- How a message lists the names that were expected. -/
def listNames : List String → String
  | [] => "there are no variants"
  | [a] => s!"expected `{a}`"
  | [a, b] => s!"expected `{a}` or `{b}`"
  | names => "expected one of " ++ ", ".intercalate (names.map fun n => s!"`{n}`")

def Mismatch.message : Mismatch → String
  | .type found expected => s!"invalid type: {found.describe}, expected {expected}"
  | .value found expected => s!"invalid value: {found.describe}, expected {expected}"
  | .length count expected => s!"invalid length {count}, expected {expected}"
  | .missing field => s!"missing field `{field}`"
  | .duplicate field => s!"duplicate field `{field}`"
  | .variant name known => s!"unknown variant `{name}`, {listNames known}"
  | .content message => message

/-- Why a draft cannot be decoded. -/
inductive Fault where
  | text (fault : Json.Fault)
  | data (mismatch : Mismatch)

/-- Where a draft comes from. -/
inductive Form where
  | text
  | value
deriving DecidableEq

abbrev Reader (α : Type) := Draft → Except Fault α

/-- A reading of a leaf, with its fault as a fault of decoding. -/
def ofReading {α : Type} : Except Json.Fault α → Except Fault α
  | .ok a => .ok a
  | .error fault => .error (.text fault)

/-- The fault that stands in place of a closing bracket. -/
def closing : Option Json.Fault → Except Fault Unit
  | none => .ok ()
  | some fault => .error (.text fault)

/-! ### Single values -/

def finding : Draft → Except Fault Finding
  | .absent => .error (.text .truncated)
  | .garbled fault => .error (.text fault)
  | .null => .ok .null
  | .bool b => .ok (.bool b)
  | .number reading _ => do
    match ← ofReading reading with
    | .integer i => .ok (.integer i)
    | .decimal x => .ok (.decimal x)
  | .string reading _ => (ofReading reading).map .string
  | .array _ _ => .ok .sequence
  | .object _ _ => .ok .map

def refuse {α : Type} (expected : String) (d : Draft) : Except Fault α := do
  .error (.data (.type (← finding d) expected))

/-- A text; `expected` says what it denotes. -/
def textAs (expected : String) : Reader String
  | .string reading _ => ofReading reading
  | d => refuse expected d

def text : Reader String := textAs "a string"

def flag : Reader Bool
  | .bool b => .ok b
  | d => refuse "a boolean" d

/-- A natural number up to `max`; `expected` names the range. -/
def nat (max : Nat) (expected : String) : Reader Nat
  | .number reading _ => do
    match ← ofReading reading with
    | .integer i =>
      if 0 ≤ i ∧ i ≤ max then .ok i.toNat else .error (.data (.value (.integer i) expected))
    | .decimal x => .error (.data (.type (.decimal x) expected))
  | d => refuse expected d

/-- A count of 64 bits. -/
def count : Reader Nat := nat 0xffffffffffffffff "usize"

def byte : Reader UInt8 := fun d => (nat 255 "u8" d).map UInt8.ofNat

/-- Bytes in Base64. -/
def bytes : Reader Bytes := fun d => do
  match Base64.standard.decode? (← text d) with
  | some b => .ok b
  | none => .error (.data (.content Base64.invalid))

def nullable {α : Type} (reader : Reader α) : Reader (Option α)
  | .null => .ok none
  | d => (reader d).map some

/-- A value made from a text by a function that words its own refusals. -/
def parsedAs {α : Type} (expected : String) (parse : String → Except String α) :
    Reader α := fun d => do
  match parse (← textAs expected d) with
  | .ok a => .ok a
  | .error message => .error (.data (.content message))

/-- A value made from a text, with no other name than that. -/
def parsed {α : Type} (parse : String → Except String α) : Reader α := parsedAs "a string" parse

def any : Reader Json := fun d => ofReading (d.toJson? (Draft.maxDepth - 1))

/-! ### Arrays of bytes -/

/-- The first `n` items as bytes, counted from `index`, and the items after them. -/
def takeBytes (expected : String) (close : Option Json.Fault) :
    (n index : Nat) → List Draft → Except Fault (Bytes × List Draft)
  | 0, _, items => .ok ([], items)
  | _ + 1, index, [] => do
    closing close
    .error (.data (.length index expected))
  | n + 1, index, item :: items => do
    let b ← byte item
    let (rest, items) ← takeBytes expected close n (index + 1) items
    .ok (b :: rest, items)

/-- Refuses the items of an array that are left over; `total` is the number of all. -/
def noMore (form : Form) (total : Nat) : List Draft → Except Fault Unit
  | [] => .ok ()
  | _ :: _ =>
    match form with
    | .text => .error (.text .malformed)
    | .value => .error (.data (.length total "fewer elements in array"))

/-- An array of exactly `n` bytes. -/
def octets (form : Form) (n : Nat) : Reader (Octets n)
  | .array items close => do
    let expected := s!"an array of length {n}"
    let (bytes, rest) ← takeBytes expected close n 0 items
    noMore form items.length rest
    closing close
    match Octets.ofBytes? n bytes with
    | some octets => .ok octets
    | none => .error (.data (.length bytes.length expected))
  | d => refuse s!"an array of length {n}" d

/-! ### Variants -/

def variant {α : Type} (variants : List (String × α)) (name : String) : Except Fault α :=
  match variants.lookup name with
  | some a => .ok a
  | none => .error (.data (.variant name (variants.map (·.1))))

def soleMember {α : Type} (variants : List (String × α)) (name value : Draft) : Except Fault α := do
  let a ← variant variants (← ofReading name.name)
  match value with
  | .null => .ok a
  | d => refuse "unit" d

/-- One of several named values, written as its name or as an object whose only member has that name
and is null. -/
def oneOf {α : Type} (form : Form) (variants : List (String × α)) : Reader α
  | .string reading _ => do variant variants (← ofReading reading)
  | d =>
    match form with
    | .text =>
      match d with
      | .object [] close => do
        closing close
        .error (.text .malformed)
      | .object ((name, value) :: rest) close => do
        let a ← soleMember variants name value
        if rest.isEmpty then
          closing close
          .ok a
        else .error (.text .malformed)
      | .absent => .error (.text .truncated)
      | _ => .error (.text .malformed)
    | .value =>
      match d with
      | .object [(name, value)] _ => soleMember variants name value
      | .object _ _ => .error (.data (.value .map "map with a single key"))
      | d => refuse "string or map" d

/-! ### Records -/

/-- What stands in for a member that is not there. -/
inductive Fallback where
  | required
  /-- Null, among named members. -/
  | named
  /-- Null, also at the end of an array. -/
  | everywhere
deriving DecidableEq

/-- A member of a record. -/
structure Field where
  name : String
  fallback : Fallback
  /-- Reports the first fault of its value. -/
  check : Draft → Except Fault Unit

/-- A reader of members. -/
structure Record (α : Type) where
  /-- The members in the order in which they are declared. -/
  fields : List Field
  /-- Makes the value from the members that were found. -/
  build : (String → Option Draft) → Except Fault α

namespace Record

variable {α : Type}

/-- Reads members for a function and then members for its argument. -/
instance : Applicative Record where
  pure a := ⟨[], fun _ => .ok a⟩
  seq f r :=
    let r := r ()
    ⟨f.fields ++ r.fields, fun find => do
      let g ← f.build find
      let a ← r.build find
      .ok (g a)⟩

def required (name : String) (reader : Reader α) : Record α :=
  ⟨[⟨name, .required, fun d => (reader d).map fun _ => ()⟩], fun find =>
    match find name with
    | some d => reader d
    | none => .error (.data (.missing name))⟩

/-- A member that may be null or absent. -/
def optional (name : String) (fallback : Fallback) (reader : Reader α) : Record (Option α) :=
  ⟨[⟨name, fallback, fun d => (nullable reader d).map fun _ => ()⟩], fun find =>
    match find name with
    | some d => nullable reader d
    | none => .ok none⟩

/-- Checks named members in their order and gives the known ones. -/
def visit (fields : List Field) :
    (seen : List String) → List (Draft × Draft) → Except Fault (List (String × Draft))
  | _, [] => .ok []
  | seen, (key, value) :: rest => do
    let name ← ofReading key.name
    match fields.find? (·.name == name) with
    | some field =>
      if seen.contains name then .error (.data (.duplicate name))
      else
        field.check value
        let found ← visit fields (name :: seen) rest
        .ok ((name, value) :: found)
    | none =>
      closing value.skip
      visit fields seen rest

/-- Checks the values of an array in the order of the fields and gives them names; `index` counts
the fields before. -/
def visitItems (expected : String) (close : Option Json.Fault) :
    (index : Nat) → List Field → List Draft → Except Fault (List (String × Draft) × List Draft)
  | _, [], items => .ok ([], items)
  | index, field :: fields, [] => do
    closing close
    if field.fallback = .everywhere then visitItems expected close (index + 1) fields []
    else .error (.data (.length index expected))
  | index, field :: fields, item :: items => do
    field.check item
    let (found, rest) ← visitItems expected close (index + 1) fields items
    .ok ((field.name, item) :: found, rest)

/-- Reads a record; `name` is how messages call it. -/
def read (form : Form) (name : String) (r : Record α) : Reader α
  | .object members close => do
    let found ← visit r.fields [] members
    closing close
    r.build fun n => found.lookup n
  | .array items close => do
    let expected := s!"struct {name} with {r.fields.length} elements"
    let (found, rest) ← visitItems expected close 0 r.fields items
    noMore form items.length rest
    closing close
    r.build fun n => found.lookup n
  | d => refuse s!"struct {name}" d

end Record

/-! ### Whole texts -/

def ofText {α : Type} (reader : Form → Reader α) (text : String) : Except Fault α := do
  let document := Document.ofText text
  let a ← reader .text document.root
  closing document.trailing
  .ok a

def ofJson {α : Type} (reader : Form → Reader α) (json : Json) : Except Fault α :=
  reader .value (Draft.ofJson json)

end QuorumVault.Decode
