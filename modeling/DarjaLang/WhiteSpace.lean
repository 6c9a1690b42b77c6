/-!
# White space

The characters that may surround a number inside a string: the twenty-five with the Unicode
property `White_Space`.  This is a larger class than the blanks that separate tokens.
-/

set_option autoImplicit false

namespace DarjaLang

namespace WhiteSpace

/-- The ranges of code points with the property `White_Space`, ends included. -/
def ranges : List (Nat × Nat) :=
  [(0x9, 0xD), (0x20, 0x20), (0x85, 0x85), (0xA0, 0xA0), (0x1680, 0x1680), (0x2000, 0x200A),
    (0x2028, 0x2029), (0x202F, 0x202F), (0x205F, 0x205F), (0x3000, 0x3000)]

/-- Has the property `White_Space`. -/
def contains (c : Char) : Bool := ranges.any fun r => r.1 ≤ c.toNat && c.toNat ≤ r.2

example : (ranges.map fun r => r.2 - r.1 + 1).sum = 25 := rfl

/-- A text without the white space at its two ends. -/
def trim (cs : List Char) : List Char :=
  ((cs.dropWhile contains).reverse.dropWhile contains).reverse

end WhiteSpace

end DarjaLang
