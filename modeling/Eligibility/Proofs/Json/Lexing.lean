import Eligibility.Json.Lexeme
import Eligibility.Json.Writer
import Eligibility.Proofs.Text.Split
/-!
# Written JSON is cut into its lexemes

`Json.lexemes` are the lexemes of a value. A value without numbers is cut into them when its written
form is read (`lexemes?_render`).

* Strings hold any characters, and are read back from their escapes (`lexemes?_quote`).
* A name such as `null` is read as far as letters go, so that what follows a value must not start
  with a letter. In an array or an object, punctuation follows.
-/

namespace Eligibility.Json

open Text

/-! ## Strings -/

theorem hexDigit?_hexDigit {n : Nat} (h : n < 16) : hexDigit? (hexDigit n) = some n := by
  revert n
  decide

/-- A control character is read back from its four digits. -/
theorem hexUnit?_of_lt {c : Char} (h : c < ' ') :
    hexUnit? '0' '0' (hexDigit (c.toNat / 16)) (hexDigit (c.toNat % 16)) = some c.toNat := by
  have hlt : c.toNat < 32 := h
  have hzero : hexDigit? '0' = some 0 := by decide
  have hhigh : hexDigit? (hexDigit (c.toNat / 16)) = some (c.toNat / 16) :=
    hexDigit?_hexDigit (by omega)
  have hlow : hexDigit? (hexDigit (c.toNat % 16)) = some (c.toNat % 16) :=
    hexDigit?_hexDigit (by omega)
  simp [hexUnit?, hzero, hhigh, hlow]
  omega

/-- A character is written by a letter, by four digits, or as itself. -/
theorem escapeChar_cases (c : Char) :
    (∃ letter, letter ≠ 'u' ∧ escaped? letter = some c ∧ escapeChar c = ['\\', letter]) ∨
      (c < ' ' ∧ escapeChar c =
        ['\\', 'u', '0', '0', hexDigit (c.toNat / 16), hexDigit (c.toNat % 16)]) ∨
      (c ≠ '"' ∧ c ≠ '\\' ∧ ¬ c < ' ' ∧ escapeChar c = [c]) := by
  unfold escapeChar
  split
  · subst_vars
    exact .inl ⟨'"', by decide, rfl, rfl⟩
  split
  · subst_vars
    exact .inl ⟨'\\', by decide, rfl, rfl⟩
  split
  · subst_vars
    exact .inl ⟨'b', by decide, rfl, rfl⟩
  split
  · subst_vars
    exact .inl ⟨'t', by decide, rfl, rfl⟩
  split
  · subst_vars
    exact .inl ⟨'n', by decide, rfl, rfl⟩
  split
  · subst_vars
    exact .inl ⟨'f', by decide, rfl, rfl⟩
  split
  · subst_vars
    exact .inl ⟨'r', by decide, rfl, rfl⟩
  split
  · exact .inr (.inl ⟨by assumption, rfl⟩)
  · exact .inr (.inr ⟨by assumption, by assumption, by assumption, rfl⟩)

section ReadString

variable (read rest : List Char)

theorem readString?_plain {c : Char} (hquote : c ≠ '"') (hback : c ≠ '\\') (h : ¬ c < ' ') :
    readString? read (c :: rest) = readString? (c :: read) rest := by
  rw [readString?, if_neg h]
  · exact hquote
  · exact fun _ _ _ _ _ hc _ => hback hc
  · exact fun _ _ hc _ => hback hc

theorem readString?_letter {letter c : Char} (hu : letter ≠ 'u') (h : escaped? letter = some c) :
    readString? read ('\\' :: letter :: rest) = readString? (c :: read) rest := by
  rw [readString?, h]
  exact fun _ _ _ _ _ hletter _ => hu hletter

theorem readString?_unit {a b c d : Char} {unit : Nat} (h : hexUnit? a b c d = some unit)
    (hsmall : unit < 0xD800) :
    readString? read ('\\' :: 'u' :: a :: b :: c :: d :: rest) =
      readString? (Char.ofNat unit :: read) rest := by
  have hlow : isLowSurrogate unit = false := by simp [isLowSurrogate]; omega
  have hhigh : isHighSurrogate unit = false := by simp [isHighSurrogate]; omega
  simp [readString?, h, hlow, hhigh]

/-- **A character is read back from its written form.** -/
theorem readString?_escapeChar (c : Char) :
    readString? read (escapeChar c ++ rest) = readString? (c :: read) rest := by
  rcases escapeChar_cases c with ⟨letter, hu, hletter, hc⟩ | ⟨hlt, hc⟩ | ⟨hquote, hback, hlt, hc⟩
  · rw [hc]
    exact readString?_letter read rest hu hletter
  · have hsmall : c.toNat < 0xD800 := Nat.lt_trans (show c.toNat < 32 from hlt) (by decide)
    rw [hc, List.cons_append]
    exact (readString?_unit read rest (hexUnit?_of_lt hlt) hsmall).trans
      (by rw [Char.ofNat_toNat])
  · rw [hc]
    exact readString?_plain read rest hquote hback hlt

end ReadString

/-- A string is read back from its written form, up to its closing quote. -/
theorem readString?_flatMap_escapeChar (read cs rest : List Char) :
    readString? read (cs.flatMap escapeChar ++ '"' :: rest) = some (read.reverse ++ cs, rest) := by
  induction cs generalizing read with
  | nil => simp [readString?]
  | cons c cs ih =>
    rw [List.flatMap_cons, List.append_assoc, readString?_escapeChar, ih]
    simp

/-! ## Lexemes -/

/-- Punctuation starts no other lexeme, and is no space. -/
theorem of_punctuation? {c : Char} {lexeme : Lexeme} (h : punctuation? c = some lexeme) :
    isSpace c = false ∧ c ≠ '"' ∧ isNumberChar c = false ∧ c.isAlpha = false := by
  unfold punctuation? at h
  repeat' split at h
  all_goals first | (subst_vars; decide) | cases h

theorem lexemes?_punctuation {c : Char} {lexeme : Lexeme} (h : punctuation? c = some lexeme)
    (rest : List Char) : lexemes? (c :: rest) = (lexeme :: ·) <$> lexemes? rest := by
  obtain ⟨hspace, hquote, hnumber, halpha⟩ := of_punctuation? h
  rw [lexemes?]
  simp [hspace, hquote, hnumber, halpha, h]

theorem lexemes?_quote (text : String) (rest : List Char) :
    lexemes? ((quote text).toList ++ rest) = (.string text :: ·) <$> lexemes? rest := by
  have hread := readString?_flatMap_escapeChar [] text.toList rest
  have hquote : (quote text).toList ++ rest =
      '"' :: (text.toList.flatMap escapeChar ++ '"' :: rest) := by
    simp [quote]
  rw [hquote, lexemes?, if_neg (by decide), if_pos rfl]
  split
  · rename_i hnone
    rw [hread] at hnone
    cases hnone
  · rename_i hsome
    obtain ⟨rfl, rfl⟩ := Prod.mk.inj (Option.some.inj (hread.symm.trans hsome))
    rw [List.reverse_nil, List.nil_append, String.ofList_toList]

/-- A name is made of letters, and starts no other lexeme. -/
theorem of_literalOfName? {name : List Char} {value : Json} (h : literalOfName? name = some value) :
    ∃ c letters, name = c :: letters ∧ c.isAlpha = true ∧ letters.all Char.isAlpha = true ∧
      isSpace c = false ∧ c ≠ '"' ∧ isNumberChar c = false := by
  unfold literalOfName? at h
  split at h
  · subst name
    exact ⟨'n', ['u', 'l', 'l'], rfl, rfl, rfl, by decide⟩
  split at h
  · subst name
    exact ⟨'t', ['r', 'u', 'e'], rfl, rfl, rfl, by decide⟩
  split at h
  · subst name
    exact ⟨'f', ['a', 'l', 's', 'e'], rfl, rfl, rfl, by decide⟩
  · cases h

theorem lexemes?_name {name rest : List Char} {value : Json}
    (h : literalOfName? name = some value) (hrest : Stops Char.isAlpha rest) :
    lexemes? (name ++ rest) = (.literal value :: ·) <$> lexemes? rest := by
  obtain ⟨c, letters, rfl, halpha, hall, hspace, hquote, hnumber⟩ := of_literalOfName? h
  have hletters : ∀ d ∈ letters, d.isAlpha = true := List.all_eq_true.1 hall
  have htake := hrest.takeWhile_append hletters
  have hdrop := hrest.dropWhile_append hletters
  rw [List.cons_append, lexemes?]
  simp [hspace, hquote, hnumber, halpha, htake, hdrop, h]

/-! ## Values -/

mutual

/-- The lexemes of a value. -/
def lexemes : Json → List Lexeme
  | string value => [.string value]
  | array items => .openBracket :: lexemesOfItems items ++ [.closeBracket]
  | object members => .openBrace :: lexemesOfMembers members ++ [.closeBrace]
  | value => [.literal value]

/-- The lexemes of the items of an array. -/
def lexemesOfItems : List Json → List Lexeme
  | [] => []
  | [item] => item.lexemes
  | item :: rest => item.lexemes ++ .comma :: lexemesOfItems rest

/-- The lexemes of the members of an object. -/
def lexemesOfMembers : List (String × Json) → List Lexeme
  | [] => []
  | [(name, value)] => .string name :: .colon :: value.lexemes
  | (name, value) :: rest =>
    .string name :: .colon :: value.lexemes ++ .comma :: lexemesOfMembers rest

end

theorem lexemesOfItems_cons (item next : Json) (rest : List Json) :
    lexemesOfItems (item :: next :: rest) =
      item.lexemes ++ .comma :: lexemesOfItems (next :: rest) :=
  rfl

theorem lexemesOfMembers_cons (member next : String × Json) (rest : List (String × Json)) :
    lexemesOfMembers (member :: next :: rest) =
      lexemesOfMembers [member] ++ .comma :: lexemesOfMembers (next :: rest) :=
  rfl

/-- A value without numbers. -/
inductive Numberless : Json → Prop
  | null : Numberless null
  | bool (value : Bool) : Numberless (bool value)
  | string (value : String) : Numberless (string value)
  | array {items : List Json} (h : ∀ item ∈ items, Numberless item) : Numberless (array items)
  | object {members : List (String × Json)} (h : ∀ member ∈ members, Numberless member.2) :
    Numberless (object members)

/-- A text is cut into some lexemes, whatever follows that does not start with a letter. -/
def LexesTo (text : String) (lexemes : List Lexeme) : Prop :=
  ∀ rest, Stops Char.isAlpha rest →
    lexemes? (text.toList ++ rest) = (lexemes ++ ·) <$> lexemes? rest

namespace LexesTo

variable {left right text : String} {lexemes lexemes' : List Lexeme}

theorem name {name : String} {value : Json} (h : literalOfName? name.toList = some value) :
    LexesTo name [.literal value] :=
  fun _ hrest => lexemes?_name h hrest

theorem string (value : String) : LexesTo (quote value) [.string value] :=
  fun rest _ => lexemes?_quote value rest

/-- Two texts with a character between them, which is cut off from both. -/
theorem punctuated {c : Char} {lexeme : Lexeme} (h : LexesTo left lexemes)
    (hc : punctuation? c = some lexeme) (h' : LexesTo right lexemes') :
    LexesTo (left ++ String.singleton c ++ right) (lexemes ++ lexeme :: lexemes') := by
  intro rest hrest
  obtain ⟨-, -, -, halpha⟩ := of_punctuation? hc
  have htext : (left ++ String.singleton c ++ right).toList ++ rest =
      left.toList ++ (c :: (right.toList ++ rest)) := by simp
  rw [htext, h _ (stops_cons halpha), lexemes?_punctuation hc, h' rest hrest]
  simp [Function.comp_def]

/-- A text between two characters. -/
theorem enclosed {c d : Char} {first last : Lexeme} (hc : punctuation? c = some first)
    (h : LexesTo text lexemes) (hd : punctuation? d = some last) :
    LexesTo (String.singleton c ++ text ++ String.singleton d) (first :: lexemes ++ [last]) := by
  have hempty : LexesTo "" [] := fun rest _ => by simp
  simpa using punctuated (punctuated hempty hc h) hd hempty

end LexesTo

theorem lexesTo_renderItems {items : List Json}
    (h : ∀ item ∈ items, LexesTo item.render item.lexemes) :
    LexesTo (renderItems items) (lexemesOfItems items) := by
  induction items with
  | nil => exact fun rest _ => by simp [renderItems, lexemesOfItems]
  | cons item items ih =>
    obtain ⟨hitem, hitems⟩ := List.forall_mem_cons.1 h
    cases items with
    | nil => exact hitem
    | cons next items => exact hitem.punctuated (c := ',') rfl (ih hitems)

theorem lexesTo_renderMembers {members : List (String × Json)}
    (h : ∀ member ∈ members, LexesTo member.2.render member.2.lexemes) :
    LexesTo (renderMembers members) (lexemesOfMembers members) := by
  induction members with
  | nil => exact fun rest _ => by simp [renderMembers, lexemesOfMembers]
  | cons member members ih =>
    obtain ⟨hmember, hmembers⟩ := List.forall_mem_cons.1 h
    have hpair := (LexesTo.string member.1).punctuated (c := ':') rfl hmember
    cases members with
    | nil => exact hpair
    | cons next members => exact hpair.punctuated (c := ',') rfl (ih hmembers)

theorem Numberless.lexesTo {value : Json} (h : Numberless value) :
    LexesTo value.render value.lexemes := by
  induction h with
  | null => exact .name rfl
  | bool value => cases value <;> exact .name rfl
  | string value => exact .string value
  | array _ ih => exact .enclosed (c := '[') (d := ']') rfl (lexesTo_renderItems ih) rfl
  | object _ ih =>
    exact .enclosed (c := '\x7b') (d := '\x7d') rfl (lexesTo_renderMembers ih) rfl

/-- **A value without numbers is cut into its lexemes.** -/
theorem lexemes?_render {value : Json} (h : Numberless value) :
    lexemes? value.render.toList = some value.lexemes := by
  have hrender := h.lexesTo [] stops_nil
  simpa [lexemes?] using hrender

end Eligibility.Json
