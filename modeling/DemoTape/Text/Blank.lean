/-
# Blank characters

The 25 code points with the Unicode property `White_Space`. The zero-width space U+200B, the byte order mark
U+FEFF and the separators U+001C to U+001F do not have it.
-/

namespace DemoTape.Text
set_option autoImplicit false

/-- The ranges of `White_Space`, ends included, ascending. -/
def blankRanges : List (Nat × Nat) :=
  [(0x09, 0x0D), (0x20, 0x20), (0x85, 0x85), (0xA0, 0xA0), (0x1680, 0x1680), (0x2000, 0x200A),
    (0x2028, 0x2029), (0x202F, 0x202F), (0x205F, 0x205F), (0x3000, 0x3000)]

example : (blankRanges.map fun range => range.2 + 1 - range.1).sum = 25 := by decide

def isBlank (c : Char) : Bool :=
  blankRanges.any fun range => range.1 ≤ c.toNat && c.toNat ≤ range.2

/-- The text without the blanks in front. -/
def dropBlanks (text : List Char) : List Char := text.dropWhile isBlank

end DemoTape.Text
