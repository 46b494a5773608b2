/-! # Blank characters

The characters that count as white space when text from a template, a definition or a stored line is
trimmed.  The set is the Unicode property White_Space.
-/

set_option autoImplicit false

namespace Orchestration.Text

/-- Unicode White_Space. -/
def isBlank (c : Char) : Bool :=
  let n := c.toNat
  (9 ≤ n && n ≤ 13) || n == 32 || n == 0x85 || n == 0xA0 || n == 0x1680 ||
    (0x2000 ≤ n && n ≤ 0x200A) || n == 0x2028 || n == 0x2029 || n == 0x202F ||
    n == 0x205F || n == 0x3000

def trimStart (text : List Char) : List Char :=
  text.dropWhile isBlank

def trim (text : List Char) : List Char :=
  (trimStart (trimStart text).reverse).reverse

def allBlank (text : List Char) : Bool :=
  text.all isBlank

end Orchestration.Text
