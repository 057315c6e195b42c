/-!
# Blank characters and case

White space in the sense of Unicode, which may surround a setting, and the lower case of ASCII
letters, in which names of algorithms are compared.
-/

namespace QuorumVault.Text

/-- White space: the controls from tab to carriage return, the spaces and the separators. -/
def isBlank (c : Char) : Bool :=
  let n := c.toNat
  (0x09 ≤ n && n ≤ 0x0d) || n == 0x20 || n == 0x85 || n == 0xa0 || n == 0x1680 ||
    (0x2000 ≤ n && n ≤ 0x200a) || n == 0x2028 || n == 0x2029 || n == 0x202f || n == 0x205f ||
      n == 0x3000

/-- The characters after leading white space. -/
def dropBlank (chars : List Char) : List Char := chars.dropWhile isBlank

/-- The characters without the white space on either side. -/
def trim (chars : List Char) : List Char := (dropBlank (dropBlank chars).reverse).reverse

/-- A text without the white space on either side. -/
def trimmed (text : String) : String := String.ofList (trim text.toList)

/-- A text with its ASCII letters in lower case; every other character stays. -/
def lowered (text : String) : String := String.ofList (text.toList.map Char.toLower)

end QuorumVault.Text
