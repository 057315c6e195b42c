import QuorumVault.Text.Unshown

/-!
# Quoted text

How a message quotes a text: between double quotes, with the common controls, the quote and the
backslash behind a backslash, and every character that would not be shown by its number.
-/

namespace QuorumVault.Text

/-- The hexadecimal digits of a number without leading zeros. -/
def hexNumeral (n : Nat) : List Char := Nat.toDigits 16 n

def quoteChar (c : Char) : List Char :=
  match c with
  | '"' => ['\\', '"']
  | '\\' => ['\\', '\\']
  | '\n' => ['\\', 'n']
  | '\r' => ['\\', 'r']
  | '\t' => ['\\', 't']
  | '\x00' => ['\\', '0']
  | c => if isUnshown c then ['\\', 'u', '\x7b'] ++ hexNumeral c.toNat ++ ['\x7d'] else [c]

def quoted (text : String) : String :=
  String.ofList ('"' :: text.toList.flatMap quoteChar ++ ['"'])

end QuorumVault.Text
