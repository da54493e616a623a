import Eligibility.Binary64.Decimal
import Eligibility.Json.Basic
/-!
# Lexemes of JSON

`Json.lexemes?` cuts a text into the punctuation, names, numbers and strings of RFC 8259, and fails
where none of these starts. Numbers have no leading zeros and must not overflow; strings hold no
raw control character and only escapes that make whole characters.
-/

namespace Eligibility.Json

/-- A lexical unit of a JSON text. -/
inductive Lexeme
  | openBracket
  | closeBracket
  | openBrace
  | closeBrace
  | comma
  | colon
  /-- A string, which is a value or the name of a member. -/
  | string (value : String)
  /-- A number, a truth value or `null`. -/
  | literal (value : Json)
  deriving Repr

/-- Whether a character may stand between lexemes. -/
def isSpace (c : Char) : Bool :=
  c == ' ' || c == '\t' || c == '\n' || c == '\r'

/-! ## Strings -/

/-- The value of a hexadecimal digit of either case. -/
def hexDigit? (c : Char) : Option Nat :=
  if '0' ≤ c && c ≤ '9' then some (c.toNat - '0'.toNat)
  else if 'a' ≤ c && c ≤ 'f' then some (c.toNat - 'a'.toNat + 10)
  else if 'A' ≤ c && c ≤ 'F' then some (c.toNat - 'A'.toNat + 10)
  else none

/-- The value of four hexadecimal digits. -/
def hexUnit? (a b c d : Char) : Option Nat := do
  return ((← hexDigit? a) * 16 + (← hexDigit? b)) * 256 + (← hexDigit? c) * 16 + (← hexDigit? d)

/-- The character that a one-letter escape stands for. -/
def escaped? (c : Char) : Option Char :=
  if c = '"' || c = '\\' || c = '/' then some c
  else if c = 'b' then some '\x08'
  else if c = 'f' then some '\x0c'
  else if c = 'n' then some '\n'
  else if c = 'r' then some '\r'
  else if c = 't' then some '\t'
  else none

/-- Whether a UTF-16 unit is the first half of a surrogate pair. -/
def isHighSurrogate (unit : Nat) : Bool := 0xD800 ≤ unit && unit < 0xDC00

/-- Whether a UTF-16 unit is the second half of a surrogate pair. -/
def isLowSurrogate (unit : Nat) : Bool := 0xDC00 ≤ unit && unit < 0xE000

/-- The rest of a string after its opening quote: its characters, appended to those already read
(the latest first), and the text after the closing quote. -/
def readString? (read : List Char) : List Char → Option (List Char × List Char)
  | [] => none
  | '"' :: rest => some (read.reverse, rest)
  | '\\' :: 'u' :: a :: b :: c :: d :: rest =>
    match hexUnit? a b c d with
    | none => none
    | some unit =>
      if isLowSurrogate unit then none
      else if isHighSurrogate unit then
        match rest with
        | '\\' :: 'u' :: e :: f :: g :: h :: rest =>
          match hexUnit? e f g h with
          | none => none
          | some low =>
            if isLowSurrogate low then
              let code := 0x10000 + (unit - 0xD800) * 0x400 + (low - 0xDC00)
              readString? (Char.ofNat code :: read) rest
            else none
        | _ => none
      else readString? (Char.ofNat unit :: read) rest
  | '\\' :: c :: rest =>
    match escaped? c with
    | none => none
    | some char => readString? (char :: read) rest
  | c :: rest => if c < ' ' then none else readString? (c :: read) rest

theorem length_of_readString? {read cs value rest : List Char}
    (h : readString? read cs = some (value, rest)) : rest.length < cs.length := by
  fun_induction readString? read cs <;> simp_all <;> omega

/-! ## Numbers -/

/-- Whether a character can stand in a number. -/
def isNumberChar (c : Char) : Bool :=
  c.isDigit || c == '-' || c == '+' || c == '.' || c == 'e' || c == 'E'

/-- An integer that was written without point and exponent. One beyond 64 bits is rounded, and so
is `-0`, which as a double keeps its sign. -/
def numberOfInteger (negative : Bool) (magnitude : Nat) : Number :=
  if negative then
    if magnitude = 0 || 0x8000000000000000 < magnitude then
      .real (Binary64.ofDecimal true ⟨magnitude, 0⟩)
    else .integer (-magnitude)
  else if 0x10000000000000000 ≤ magnitude then .real (Binary64.ofDecimal false ⟨magnitude, 0⟩)
  else .integer magnitude

/-- A number that is not too large for a double. -/
def finiteNumber? : Number → Option Number
  | .integer value => some (.integer value)
  | .real value => if value.isFinite then some (.real value) else none

/-- The number that a text is. -/
def readNumber? (cs : List Char) : Option Number :=
  let (negative, magnitude) :=
    match cs with
    | '-' :: rest => (true, rest)
    | _ => (false, cs)
  let whole := magnitude.takeWhile Char.isDigit
  let afterWhole := magnitude.dropWhile Char.isDigit
  if whole.isEmpty || (whole.head? == some '0' && whole.length != 1) then none
  else
    match afterWhole with
    | [] => finiteNumber? (numberOfInteger negative (Decimal.valueOfDigits whole))
    | '.' :: afterPoint =>
      let fraction := afterPoint.takeWhile Char.isDigit
      if fraction.isEmpty then none
      else do
        let scale ← Binary64.readScale? (afterPoint.dropWhile Char.isDigit)
        finiteNumber? (.real (Binary64.ofDecimal negative (.ofParts whole fraction scale)))
    | scaleText => do
      let scale ← Binary64.readScale? scaleText
      finiteNumber? (.real (Binary64.ofDecimal negative (.ofParts whole [] scale)))

/-! ## Cutting a text -/

/-- The value that a name stands for. -/
def literalOfName? (name : List Char) : Option Json :=
  if name = "null".toList then some .null
  else if name = "true".toList then some (.bool true)
  else if name = "false".toList then some (.bool false)
  else none

/-- The lexeme that a single character is. -/
def punctuation? (c : Char) : Option Lexeme :=
  if c = '[' then some .openBracket
  else if c = ']' then some .closeBracket
  else if c = '\x7b' then some .openBrace
  else if c = '\x7d' then some .closeBrace
  else if c = ',' then some .comma
  else if c = ':' then some .colon
  else none

theorem length_dropWhile_lt (p : Char → Bool) (c : Char) (rest : List Char) :
    (rest.dropWhile p).length < (c :: rest).length :=
  Nat.lt_succ_of_le (List.dropWhile_sublist p).length_le

/-- The lexemes of a text. -/
def lexemes? : List Char → Option (List Lexeme)
  | [] => some []
  | c :: rest =>
    if isSpace c then lexemes? rest
    else if c = '"' then
      match _h : readString? [] rest with
      | none => none
      | some (value, after) => (.string (String.ofList value) :: ·) <$> lexemes? after
    else if isNumberChar c then
      match readNumber? (c :: rest.takeWhile isNumberChar) with
      | none => none
      | some value => (.literal (.number value) :: ·) <$> lexemes? (rest.dropWhile isNumberChar)
    else if c.isAlpha then
      match literalOfName? (c :: rest.takeWhile Char.isAlpha) with
      | none => none
      | some value => (.literal value :: ·) <$> lexemes? (rest.dropWhile Char.isAlpha)
    else
      match punctuation? c with
      | none => none
      | some lexeme => (lexeme :: ·) <$> lexemes? rest
termination_by cs => cs.length
decreasing_by
  · exact Nat.lt_succ_self _
  · exact Nat.lt_succ_of_lt (length_of_readString? _h)
  · exact length_dropWhile_lt ..
  · exact length_dropWhile_lt ..
  · exact Nat.lt_succ_self _

end Eligibility.Json
