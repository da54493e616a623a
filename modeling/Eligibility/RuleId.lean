/-!
# Ids of new rules

A new rule is named by 128 bits in hexadecimal, in groups of 8, 4, 4, 4 and 12 digits. Six of the
bits are fixed, which marks the others as random: the third group starts with a 4, and the fourth
with 8, 9, a or b. `RuleId.isRandom` tells the ids of this form from all others.
-/

namespace Eligibility.RuleId

/-- The number of digits in each group of an id. -/
def groupSizes : List Nat := [8, 4, 4, 4, 12]

/-- The place of the digit that is always 4. -/
def versionPlace : Nat := 12

/-- The place of the digit with two fixed bits. -/
def variantPlace : Nat := 16

/-- The digit at a place, counted from the front, of the id with some random bits. -/
def digitAt (bits place : Nat) : Nat :=
  let digit := (bits >>> (4 * (31 - place))) % 16
  if place = versionPlace then 4
  else if place = variantPlace then 8 + digit % 4
  else digit

/-- A text cut into groups of some sizes, with a dash between two groups. -/
def group : List Nat → List Char → List Char
  | [], cs => cs
  | [_], cs => cs
  | size :: sizes, cs => cs.take size ++ '-' :: group sizes (cs.drop size)

/-- The id with some random bits. -/
def ofRandom (bits : Nat) : String :=
  let digits := (List.range 32).map fun place => Nat.digitChar (digitAt bits place)
  String.ofList (group groupSizes digits)

/-- Whether a character is a digit of an id. -/
def isDigit (c : Char) : Bool :=
  c.isDigit || ('a' ≤ c && c ≤ 'f')

/-- Whether an id has the form of those of new rules. -/
def isRandom (id : String) : Bool :=
  let digits := id.toList.filter (· != '-')
  digits.length == 32 && digits.all isDigit && group groupSizes digits == id.toList &&
    digits[versionPlace]? == some '4' &&
    digits[variantPlace]?.any fun c => c == '8' || c == '9' || c == 'a' || c == 'b'

end Eligibility.RuleId
