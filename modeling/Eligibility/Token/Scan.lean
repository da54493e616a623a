import Eligibility.Error
import Eligibility.Text.Blank
import Eligibility.Text.Bytes
/-!
# From text to tokens

`Token.scan` cuts a text into tokens. Blanks separate tokens and are dropped, a parenthesis is
always a token of its own, and a token that starts with a single quote runs to the next single
quote, blanks and parentheses included. Every other token runs to the next blank or parenthesis.
`isWord` says which strings are kept whole as a word.
-/

namespace Eligibility

open Text

namespace Token

/-- Whether a character continues an unquoted token. -/
def isWordChar (c : Char) : Bool :=
  !(isBlank c || c == '(' || c == ')')

/-- Whether a character stands inside a quoted string. -/
def isQuotedChar (c : Char) : Bool :=
  c != '\''

theorem length_dropWhile_le (p : Char → Bool) (cs : List Char) :
    (cs.dropWhile p).length ≤ cs.length :=
  (List.dropWhile_sublist p).length_le

/-- The tokens of a text that starts at a byte offset. -/
def scanFrom (offset : Nat) : List Char → Except ParseError (List Token)
  | [] => .ok []
  | c :: rest =>
    if isBlank c then
      scanFrom (offset + c.utf8Size) rest
    else if c = '(' then
      (⟨.openParen, offset⟩ :: ·) <$> scanFrom (offset + 1) rest
    else if c = ')' then
      (⟨.closeParen, offset⟩ :: ·) <$> scanFrom (offset + 1) rest
    else if c = '\'' then
      let content := rest.takeWhile isQuotedChar
      match h : rest.dropWhile isQuotedChar with
      | [] => .error (.unterminatedString offset)
      | _ :: after =>
        (⟨.quoted (String.ofList content), offset⟩ :: ·) <$>
          scanFrom (offset + (byteCount content + 2)) after
    else
      let word := c :: rest.takeWhile isWordChar
      (⟨.ofWord (String.ofList word), offset⟩ :: ·) <$>
        scanFrom (offset + byteCount word) (rest.dropWhile isWordChar)
termination_by cs => cs.length
decreasing_by
  all_goals simp only [List.length_cons]
  all_goals try omega
  · have := length_dropWhile_le isQuotedChar rest
    rw [h, List.length_cons] at this
    omega
  · have := length_dropWhile_le isWordChar rest
    omega

/-- The tokens of a text, with their byte offsets. It fails only on a quote that is never closed. -/
def scan (text : String) : Except ParseError (List Token) :=
  scanFrom 0 text.toList

end Token

/-- Whether a string stands as a single word: it is not empty, holds no blank and no parenthesis,
does not start with a single quote, and is no connective and no comparator. -/
def isWord (text : String) : Bool :=
  !text.isEmpty && text.toList.head? != some '\'' && text.toList.all Token.isWordChar &&
    Token.Kind.ofWord text == .word text

end Eligibility
