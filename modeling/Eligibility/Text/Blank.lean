/-!
# Blank characters

Blanks separate the words of a rule and surround numbers. A character is blank when it has the
Unicode property `White_Space`; `isBlank` decides it from the table `blankRanges`, and `trim` takes
the blanks off both ends of a text.
-/

namespace Eligibility.Text

/-- The code points with the Unicode property `White_Space`, as inclusive ranges. -/
def blankRanges : List (Nat × Nat) :=
  [(0x09, 0x0D), (0x20, 0x20), (0x85, 0x85), (0xA0, 0xA0), (0x1680, 0x1680), (0x2000, 0x200A),
    (0x2028, 0x2029), (0x202F, 0x202F), (0x205F, 0x205F), (0x3000, 0x3000)]

/-- Whether a character is blank. -/
def isBlank (c : Char) : Bool :=
  blankRanges.any fun range => range.1 ≤ c.toNat && c.toNat ≤ range.2

/-- The text without the blanks at its two ends. -/
def trim (cs : List Char) : List Char :=
  ((cs.dropWhile isBlank).reverse.dropWhile isBlank).reverse

/-! ## The characters that matter to rules -/

theorem isBlank_space : isBlank ' ' = true := by decide

theorem isBlank_quote : isBlank '\'' = false := by decide

theorem isBlank_openParen : isBlank '(' = false := by decide

theorem isBlank_closeParen : isBlank ')' = false := by decide

end Eligibility.Text
