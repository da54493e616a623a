/-!
# Byte order marks

A text in a file may start with the character U+FEFF, which says how its bytes are ordered and is no
part of what it says. `dropMark` takes one such mark off.
-/

namespace Eligibility.Text

/-- The text without a byte order mark in front. -/
def dropMark : List Char → List Char
  | '\uFEFF' :: rest => rest
  | cs => cs

end Eligibility.Text
