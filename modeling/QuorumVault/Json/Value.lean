import QuorumVault.Number.Shortest

/-!
# JSON values

Values of JSON with two sorts of numbers: integers of 64 bits and doubles. Members of an object keep
their order; `Json.sorted` puts them in the order of their names, the last of equal names winning.
-/

namespace QuorumVault

/-- A number of a JSON text. -/
inductive Json.Number where
  /-- An integer from `-2 ^ 63` to `2 ^ 64 - 1`. -/
  | integer (value : Int)
  | decimal (value : Binary64)
deriving DecidableEq

/-- A JSON value. -/
inductive Json where
  | null
  | bool (value : Bool)
  | number (value : Json.Number)
  | string (value : String)
  | array (items : List Json)
  /-- Named values in their order. -/
  | object (members : List (String × Json))
deriving Inhabited

namespace Json

def nat (n : Nat) : Json := .number (.integer n)

def int (i : Int) : Json := .number (.integer i)

/-- The text of an optional value, or null. -/
def option {α : Type} (encode : α → Json) : Option α → Json
  | none => .null
  | some a => encode a

/-! ### Members -/

/-- Puts a member in its place among members sorted by name; one of the same name is replaced. -/
def insertMember (name : String) (value : Json) : List (String × Json) → List (String × Json)
  | [] => [(name, value)]
  | (n, v) :: rest =>
    if name < n then (name, value) :: (n, v) :: rest
    else if name = n then (name, value) :: rest
    else (n, v) :: insertMember name value rest

/-- Members sorted by name, the last of equal names winning. -/
def sorted (members : List (String × Json)) : List (String × Json) :=
  members.foldl (fun acc (name, value) => insertMember name value acc) []

/-- The member of an object with a given name. -/
def get? (name : String) : Json → Option Json
  | .object members => members.lookup name
  | _ => none

end Json

end QuorumVault
