import Eligibility.Json.Lexeme
/-!
# Strings of TOML

A string is in double quotes, where a backslash starts an escape, or in single quotes, where it does
not. Three quotes in place of one enclose a string of several lines, whose line ends stay as they
are. Each reader takes the text after the opening quotes and gives the string and the text after the
closing ones.
-/

namespace Eligibility.Toml

/-- Whether a character may stand in a line: no control character other than a tab. -/
def isLineChar (c : Char) : Bool :=
  c == '\t' || (' ' ≤ c && c != '\x7f')

/-- The end of a line at the front of a text, and the rest. -/
def lineEnd? : List Char → Option (List Char)
  | '\n' :: rest => some rest
  | '\r' :: '\n' :: rest => some rest
  | _ => none

/-- Whether a character separates words within a line. -/
def isGap (c : Char) : Bool := c == ' ' || c == '\t'

/-- The character with a number written in hexadecimal, if there is one. -/
def hexChar? (digits : List Char) : Option Char := do
  let values ← digits.mapM Json.hexDigit?
  let code := values.foldl (fun n digit => n * 16 + digit) 0
  if code < 0xD800 ∨ (0xE000 ≤ code ∧ code < 0x110000) then some (Char.ofNat code) else none

/-- A hexadecimal escape of a fixed length, and the rest. -/
def hexEscape? (count : Nat) (cs : List Char) : Option (Char × List Char) :=
  if (cs.take count).length = count then
    (hexChar? (cs.take count)).map fun c => (c, cs.drop count)
  else none

/-- The escape after a backslash, and the rest. -/
def escape? : List Char → Option (Char × List Char)
  | 'b' :: rest => some ('\x08', rest)
  | 't' :: rest => some ('\t', rest)
  | 'n' :: rest => some ('\n', rest)
  | 'f' :: rest => some ('\x0c', rest)
  | 'r' :: rest => some ('\r', rest)
  | 'e' :: rest => some ('\x1b', rest)
  | '"' :: rest => some ('"', rest)
  | '\\' :: rest => some ('\\', rest)
  | 'x' :: rest => hexEscape? 2 rest
  | 'u' :: rest => hexEscape? 4 rest
  | 'U' :: rest => hexEscape? 8 rest
  | _ => none

theorem length_of_hexEscape? {count : Nat} {cs rest : List Char} {c : Char}
    (h : hexEscape? count cs = some (c, rest)) : rest.length ≤ cs.length := by
  unfold hexEscape? at h
  split at h
  · obtain ⟨_, _, h⟩ := Option.map_eq_some_iff.1 h
    simp only [Prod.mk.injEq] at h
    rw [← h.2, List.length_drop]
    omega
  · simp at h

theorem length_of_escape? {cs rest : List Char} {c : Char} (h : escape? cs = some (c, rest)) :
    rest.length ≤ cs.length := by
  unfold escape? at h
  split at h
  case h_9 rest' => exact Nat.le_succ_of_le (length_of_hexEscape? h)
  case h_10 rest' => exact Nat.le_succ_of_le (length_of_hexEscape? h)
  case h_11 rest' => exact Nat.le_succ_of_le (length_of_hexEscape? h)
  all_goals simp_all

/-- The line breaks and gaps at the front of a text, dropped. -/
def dropBlankLines : List Char → List Char
  | '\r' :: '\n' :: rest => dropBlankLines rest
  | c :: rest => if isGap c || c == '\n' then dropBlankLines rest else c :: rest
  | [] => []

/-! ## Single lines -/

/-- The rest of a literal string: everything up to the next single quote. -/
def literal? (cs : List Char) : Option (List Char × List Char) :=
  let content := cs.takeWhile fun c => isLineChar c && c != '\''
  match cs.dropWhile fun c => isLineChar c && c != '\'' with
  | '\'' :: rest => some (content, rest)
  | _ => none

/-- The rest of a basic string, appended to what was read of it (the latest first). -/
def basic? (read : List Char) (cs : List Char) : Option (List Char × List Char) :=
  match cs with
  | [] => none
  | '"' :: rest => some (read.reverse, rest)
  | '\\' :: rest =>
    match _h : escape? rest with
    | none => none
    | some (c, rest') => basic? (c :: read) rest'
  | c :: rest => if isLineChar c then basic? (c :: read) rest else none
termination_by cs.length
decreasing_by
  · exact Nat.lt_succ_of_le (length_of_escape? _h)
  · exact Nat.lt_succ_self _

/-! ## Several lines -/

/-- The text after the line end that may follow three opening quotes. -/
def dropFirstLineEnd (cs : List Char) : List Char :=
  (lineEnd? cs).getD cs

/-- The end of a string of several lines at a run of its quotes: up to two of them belong to the
string, the last three close it. -/
def closing? (quote : Char) (read : List Char) (cs : List Char) :
    Option (List Char × List Char) :=
  let run := cs.takeWhile (· == quote)
  if 3 ≤ run.length ∧ run.length ≤ 5 then
    some (read.reverse ++ run.drop 3, cs.drop run.length)
  else none

/-- The rest of a literal string of several lines. -/
def literalLines? (read : List Char) : List Char → Option (List Char × List Char)
  | [] => none
  | '\r' :: '\n' :: rest => literalLines? ('\n' :: '\r' :: read) rest
  | '\n' :: rest => literalLines? ('\n' :: read) rest
  | '\'' :: '\'' :: '\'' :: rest => closing? '\'' read ('\'' :: '\'' :: '\'' :: rest)
  | c :: rest => if isLineChar c then literalLines? (c :: read) rest else none

theorem length_dropBlankLines_le (cs : List Char) : (dropBlankLines cs).length ≤ cs.length := by
  fun_induction dropBlankLines cs with
  | case1 rest ih => exact Nat.le_succ_of_le (Nat.le_succ_of_le ih)
  | case2 c rest _ _ ih => exact Nat.le_succ_of_le ih
  | case3 => exact Nat.le_refl _
  | case4 => exact Nat.le_refl _

theorem length_of_lineEnd? {cs rest : List Char} (h : lineEnd? cs = some rest) :
    rest.length ≤ cs.length := by
  unfold lineEnd? at h
  split at h
  · simp_all
  · simp only [Option.some.injEq] at h
    simp only [← h, List.length_cons]
    omega
  · simp at h

/-- The rest of a basic string of several lines. A backslash at the end of a line drops the line end
and all blanks after it. -/
def basicLines? (read : List Char) (cs : List Char) : Option (List Char × List Char) :=
  match cs with
  | [] => none
  | '\r' :: '\n' :: rest => basicLines? ('\n' :: '\r' :: read) rest
  | '\n' :: rest => basicLines? ('\n' :: read) rest
  | '"' :: '"' :: '"' :: rest => closing? '"' read ('"' :: '"' :: '"' :: rest)
  | '\\' :: rest =>
    match _h : lineEnd? (rest.dropWhile isGap) with
    | some next => basicLines? read (dropBlankLines next)
    | none =>
      match _h : escape? rest with
      | none => none
      | some (c, rest') => basicLines? (c :: read) rest'
  | c :: rest => if isLineChar c then basicLines? (c :: read) rest else none
termination_by cs.length
decreasing_by
  · simp only [List.length_cons]
    omega
  · exact Nat.lt_succ_self _
  · have h₁ := length_dropBlankLines_le next
    have h₂ := length_of_lineEnd? _h
    have h₃ := (List.dropWhile_sublist isGap (l := rest)).length_le
    simp only [List.length_cons]
    omega
  · exact Nat.lt_succ_of_le (length_of_escape? _h)
  · exact Nat.lt_succ_self _

/-! ## Any string -/

/-- A string of one line at the front of a text, and the rest. -/
def lineString? : List Char → Option (String × List Char)
  | '"' :: rest => (basic? [] rest).map fun (content, rest) => (String.ofList content, rest)
  | '\'' :: rest => (literal? rest).map fun (content, rest) => (String.ofList content, rest)
  | _ => none

/-- A string at the front of a text, and the rest. -/
def string? : List Char → Option (String × List Char)
  | '"' :: '"' :: '"' :: rest =>
    (basicLines? [] (dropFirstLineEnd rest)).map fun (content, rest) =>
      (String.ofList content, rest)
  | '\'' :: '\'' :: '\'' :: rest =>
    (literalLines? [] (dropFirstLineEnd rest)).map fun (content, rest) =>
      (String.ofList content, rest)
  | cs => lineString? cs

end Eligibility.Toml
