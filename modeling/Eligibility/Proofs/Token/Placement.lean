import Eligibility.Proofs.Token.Spelling
import Mathlib.Data.List.Basic
/-!
# Where the tokens of a text stand

Nothing of a text is lost when it is cut into tokens: from the offset of each token on, the text
reads as the token is written, and what lies between two tokens is blank (`Covers`). The one way to
fail is a quote that starts a string and has no partner; what stands before it has tokens of its own
(`scan_covers`).

`Tiles` is the layout of a text, piece by piece, without the rule that says where a piece ends. A
scan gives such a layout (`Scans.tiles`), and the rest is read off it by induction.
-/

namespace Eligibility

open Text

namespace Token

variable {offset : Nat} {cs : List Char} {tokens : List Token} {token : Token}

/-! ## Layouts -/

theorem Kind.display_ofWord (text : String) : (Kind.ofWord text).display = text := by
  unfold Kind.ofWord
  split
  · rename_i op hop
    exact (Connective.eq_keyword_of_ofKeyword? hop).symm
  · split
    · rename_i op hop
      exact (Comparator.eq_symbol_of_ofSymbol? hop).symm
    · rfl

/-- `Tiles offset cs tokens`: a text that starts at a byte offset consists of blanks and of these
tokens as they are written, each at its own offset. -/
inductive Tiles : Nat → List Char → List Token → Prop
  | nil {offset : Nat} : Tiles offset [] []
  | blank {offset : Nat} {c : Char} {rest : List Char} {tokens : List Token} :
    isBlank c = true → Tiles (offset + c.utf8Size) rest tokens → Tiles offset (c :: rest) tokens
  | token {offset : Nat} {kind : Kind} (written : List Char) {rest : List Char}
    {tokens : List Token} :
    kind.display = String.ofList written → written ≠ [] →
      Tiles (offset + byteCount written) rest tokens →
      Tiles offset (written ++ rest) (⟨kind, offset⟩ :: tokens)

/-- The bytes of a string in quotes. -/
theorem byteCount_quoted (content : List Char) :
    byteCount ('\'' :: (content ++ ['\''])) = byteCount content + 2 := by
  have hquote : '\''.utf8Size = 1 := rfl
  rw [byteCount_cons, byteCount_append, byteCount_cons, byteCount_nil, hquote]
  omega

/-- **A scanned text is laid out** by its tokens. -/
theorem Scans.tiles (h : Scans offset cs tokens) : Tiles offset cs tokens := by
  induction h with
  | nil => exact .nil
  | blank hblank _ ih => exact .blank hblank ih
  | openParen _ ih => exact .token ['('] rfl (by simp) ih
  | closeParen _ ih => exact .token [')'] rfl (by simp) ih
  | @quoted offset content rest tokens _ _ ih =>
    have hwritten : (Kind.quoted (String.ofList content)).display =
        String.ofList ('\'' :: (content ++ ['\''])) := by
      rw [← String.toList_inj]
      simp [Kind.display]
    simpa using Tiles.token _ hwritten (by simp) (byteCount_quoted content ▸ ih)
  | run _ _ _ _ ih => exact .token _ (Kind.display_ofWord _) (by simp) ih

/-! ## Places -/

theorem endOffset_eq {kind : Kind} {written : List Char}
    (h : kind.display = String.ofList written) (offset : Nat) :
    Token.endOffset ⟨kind, offset⟩ = offset + byteCount written := by
  rw [endOffset, h, utf8ByteSize_ofList]

/-- **Where a token stands** the text reads as the token is written. -/
theorem Tiles.exists_append (h : Tiles offset cs tokens) (htoken : token ∈ tokens) :
    ∃ before after, cs = before ++ (token.kind.display.toList ++ after) ∧
      token.offset = offset + byteCount before := by
  induction h with
  | nil => simp at htoken
  | @blank offset c rest tokens _ _ ih =>
    obtain ⟨before, after, rfl, hoffset⟩ := ih htoken
    exact ⟨c :: before, after, rfl, by rw [hoffset, byteCount_cons, Nat.add_assoc]⟩
  | @token offset kind written rest tokens hwritten _ _ ih =>
    obtain rfl | htoken := List.mem_cons.1 htoken
    · exact ⟨[], rest, by simp [hwritten], rfl⟩
    · obtain ⟨before, after, rfl, hoffset⟩ := ih htoken
      exact ⟨written ++ before, after, by simp, by rw [hoffset, byteCount_append, Nat.add_assoc]⟩

theorem Tiles.offset_le (h : Tiles offset cs tokens) (htoken : token ∈ tokens) :
    offset ≤ token.offset := by
  obtain ⟨before, after, -, hoffset⟩ := h.exists_append htoken
  exact hoffset ▸ Nat.le_add_right ..

theorem Tiles.offset_lt_endOffset (h : Tiles offset cs tokens) (htoken : token ∈ tokens) :
    token.offset < token.endOffset := by
  induction h with
  | nil => simp at htoken
  | blank _ _ ih => exact ih htoken
  | @token offset kind written rest tokens hwritten hne _ ih =>
    obtain rfl | htoken := List.mem_cons.1 htoken
    · rw [endOffset_eq hwritten]
      obtain ⟨c, cs, rfl⟩ := List.exists_cons_of_ne_nil hne
      have := c.utf8Size_pos
      simp
      omega
    · exact ih htoken

/-- **The spans of tokens** do not overlap, and increase. -/
theorem Tiles.pairwise (h : Tiles offset cs tokens) :
    tokens.Pairwise fun token later => token.endOffset ≤ later.offset := by
  induction h with
  | nil => exact .nil
  | blank _ _ ih => exact ih
  | token _ hwritten _ hrest ih =>
    refine List.pairwise_cons.2 ⟨fun later hlater => ?_, ih⟩
    rw [endOffset_eq hwritten]
    exact hrest.offset_le hlater

/-- **A character that is not blank** lies within the span of a token. -/
theorem Tiles.exists_span (h : Tiles offset cs tokens) {before after : List Char} {c : Char}
    (hcs : cs = before ++ c :: after) (hc : isBlank c = false) :
    ∃ token ∈ tokens, token.offset ≤ offset + byteCount before ∧
      offset + byteCount before + c.utf8Size ≤ token.endOffset := by
  induction h generalizing before with
  | nil => simp at hcs
  | @blank offset d rest tokens hblank _ ih =>
    cases before with
    | nil =>
      obtain ⟨rfl, -⟩ := List.cons.inj hcs
      simp [hblank] at hc
    | cons e before =>
      obtain ⟨rfl, hrest⟩ := List.cons.inj hcs
      simpa [Nat.add_assoc] using ih hrest
  | @token offset kind written rest tokens hwritten _ _ ih =>
    -- the character stands behind the first token, or within it
    obtain ⟨skipped, rfl, hrest⟩ | ⟨tail, rfl, htail⟩ := List.append_eq_append_iff.1 hcs
    · obtain ⟨token, htoken, hspan⟩ := ih hrest
      refine ⟨token, List.mem_cons_of_mem _ htoken, ?_⟩
      simpa [Nat.add_assoc] using hspan
    · cases tail with
      | nil =>
        have hrest : rest = [] ++ c :: after := by simpa using htail.symm
        obtain ⟨token, htoken, hspan⟩ := ih hrest
        refine ⟨token, List.mem_cons_of_mem _ htoken, ?_⟩
        simpa using hspan
      | cons d tail =>
        obtain ⟨rfl, rfl⟩ := List.cons.inj htail
        refine ⟨_, List.mem_cons_self, Nat.le_add_right .., ?_⟩
        rw [endOffset_eq hwritten]
        simp
        omega

/-- The text in which each token stands behind a gap, and its end. -/
def between (gaps : List String) (tokens : List Token) (last : String) : String :=
  String.join (List.zipWith (fun gap token => gap ++ token.kind.display) gaps tokens) ++ last

/-- **Tokens and gaps make up the text.** -/
theorem Tiles.exists_gaps (h : Tiles offset cs tokens) :
    ∃ gaps last, gaps.length = tokens.length ∧
      (∀ gap ∈ last :: gaps, gap.toList.all isBlank = true) ∧
      String.ofList cs = between gaps tokens last := by
  induction h with
  | nil => exact ⟨[], "", rfl, by simp, rfl⟩
  | @blank offset c rest tokens hblank _ ih =>
    obtain ⟨gaps, last, hlength, hgaps, heq⟩ := ih
    have hcons : String.ofList (c :: rest) = String.singleton c ++ String.ofList rest := by
      rw [← String.toList_inj]
      simp
    -- the blank is put in front of the first gap, or of the end if there is no token
    cases gaps with
    | nil =>
      refine ⟨[], String.singleton c ++ last, hlength, by simpa [hblank] using hgaps, ?_⟩
      rw [hcons, heq]
      simp [between]
    | cons gap gaps =>
      cases tokens with
      | nil => simp at hlength
      | cons token tokens =>
        refine ⟨(String.singleton c ++ gap) :: gaps, last, hlength, ?_, ?_⟩
        · simpa [hblank] using hgaps
        · rw [hcons, heq]
          simp [between, String.append_assoc]
  | @token offset kind written rest tokens hwritten _ _ ih =>
    obtain ⟨gaps, last, hlength, hgaps, heq⟩ := ih
    refine ⟨"" :: gaps, last, by simpa using hlength, by simpa using hgaps, ?_⟩
    rw [String.ofList_append, heq, ← hwritten]
    simp [between, String.append_assoc]

/-! ## Quotes without a partner -/

/-- `Breaks offset cs e`: a text that starts at a byte offset has tokens up to a quote behind which
there is none, and `e` says where this quote is. -/
def Breaks (offset : Nat) (cs : List Char) (e : ParseError) : Prop :=
  ∃ before after tokens, cs = before ++ '\'' :: after ∧ '\'' ∉ after ∧
    e = .unterminatedString (offset + byteCount before) ∧ Scans offset before tokens

/-- A piece in front of a text that breaks, which can be told from what follows it. -/
theorem Breaks.prepend {rest : List Char} {e : ParseError} (piece : List Char)
    (h : Breaks (offset + byteCount piece) rest e)
    (hpiece : ∀ before after tokens, rest = before ++ '\'' :: after →
      Scans (offset + byteCount piece) before tokens →
        ∃ tokens, Scans offset (piece ++ before) tokens) :
    Breaks offset (piece ++ rest) e := by
  obtain ⟨before, after, tokens, hrest, hafter, rfl, hscans⟩ := h
  obtain ⟨tokens', hscans'⟩ := hpiece before after tokens hrest hscans
  refine ⟨piece ++ before, after, tokens', by rw [hrest, List.append_assoc], hafter, ?_, hscans'⟩
  rw [byteCount_append, Nat.add_assoc]

/-- **A scan that fails** has come to a quote behind which there is none. -/
theorem breaks_of_scanFrom {e : ParseError} (h : scanFrom offset cs = .error e) :
    Breaks offset cs e := by
  fun_induction scanFrom offset cs with
  | case1 => cases h
  | case2 offset c rest hblank ih =>
    exact .prepend [c] (ih h) fun _ _ _ _ hscans => ⟨_, .blank hblank hscans⟩
  | case3 offset rest _ ih =>
    have hrest := ih (Except.map_eq_error_iff.1 h)
    exact .prepend ['('] hrest fun _ _ _ _ hscans => ⟨_, .openParen hscans⟩
  | case4 offset rest _ _ ih =>
    have hrest := ih (Except.map_eq_error_iff.1 h)
    exact .prepend [')'] hrest fun _ _ _ _ hscans => ⟨_, .closeParen hscans⟩
  | case5 offset rest hnone =>
    obtain rfl := Except.error.inj h
    have hall : rest.takeWhile isQuotedChar = rest := by
      simpa [hnone] using List.takeWhile_append_dropWhile (p := isQuotedChar) (l := rest)
    have hafter : '\'' ∉ rest := by
      intro hmem
      have hquoted := mem_takeWhile _ (hall.symm ▸ hmem)
      exact absurd hquoted (by decide)
    exact ⟨[], rest, [], rfl, hafter, rfl, .nil⟩
  | case6 offset rest content quote after hafter _ _ _ =>
    rename_i ih
    have hrest := ih (Except.map_eq_error_iff.1 h)
    obtain rfl := eq_quote_of_dropWhile hafter
    have hsize : byteCount ('\'' :: (content ++ ['\''])) = byteCount content + 2 :=
      byteCount_quoted content
    rw [← hsize] at hrest
    have hsplit : '\'' :: rest = '\'' :: (content ++ ['\'']) ++ after := by
      simp [content, ← hafter]
    rw [hsplit]
    refine hrest.prepend _ fun before _ _ _ hscans => ?_
    rw [hsize] at hscans
    exact ⟨_, by simpa using hscans.quoted mem_takeWhile⟩
  | case7 offset c rest hblank hopen hclose hquote word =>
    rename_i ih
    have hrest := ih (Except.map_eq_error_iff.1 h)
    have hrun := isWordChar_of_mem_run rest hblank hopen hclose
    have hsplit : c :: rest = word ++ rest.dropWhile isWordChar := by
      simp [word]
    rw [hsplit]
    refine hrest.prepend _ fun before after tokens hbefore hscans => ?_
    have hstop : Stops isWordChar before := (hbefore ▸ stops_dropWhile rest).of_append
    exact ⟨_, hscans.run hquote hrun hstop⟩

/-! ## Texts -/

/-- The tokens are all that a text consists of, blanks aside. -/
structure Covers (text : String) (tokens : List Token) : Prop where
  /-- Every token starts where a character does. -/
  boundary : ∀ token ∈ tokens, String.Pos.Raw.IsValid text ⟨token.offset⟩
  /-- The bytes of its span are those of its written form. -/
  bytes : ∀ token ∈ tokens,
    text.toByteArray.extract token.offset token.endOffset = token.kind.display.toByteArray
  /-- No span is empty. -/
  span : ∀ token ∈ tokens, token.offset < token.endOffset
  /-- Every span ends before the later ones start. -/
  apart : tokens.Pairwise fun token later => token.endOffset ≤ later.offset
  /-- A character that is not blank lies in a span. -/
  within : ∀ before c after, text = before ++ String.singleton c ++ after → isBlank c = false →
    ∃ token ∈ tokens, token.offset ≤ before.utf8ByteSize ∧
      before.utf8ByteSize + c.utf8Size ≤ token.endOffset
  /-- The text is put together from the tokens and from blank gaps. -/
  rebuilt : ∃ gaps last, gaps.length = tokens.length ∧
    (∀ gap ∈ last :: gaps, gap.toList.all isBlank = true) ∧ text = between gaps tokens last

/-- The bytes of what stands within a text. -/
theorem extract_toByteArray (before written after : String) :
    (before ++ (written ++ after)).toByteArray.extract before.utf8ByteSize
      (before.utf8ByteSize + written.utf8ByteSize) = written.toByteArray := by
  have hstart : before.utf8ByteSize = before.toByteArray.size + 0 := String.size_toByteArray.symm
  have hend : before.utf8ByteSize + written.utf8ByteSize =
      before.toByteArray.size + written.toByteArray.size := by
    rw [String.size_toByteArray, String.size_toByteArray]
  rw [hend, hstart, String.toByteArray_append, String.toByteArray_append,
    ByteArray.extract_append_size_add, ByteArray.extract_append_eq_left rfl]

/-- Where a token stands in a text, the text reads as the token is written. -/
theorem Tiles.exists_text_append {text : String} (h : Tiles 0 text.toList tokens)
    (htoken : token ∈ tokens) : ∃ before after, text = before ++ (token.kind.display ++ after) ∧
      token.offset = before.utf8ByteSize := by
  obtain ⟨before, after, htext, hoffset⟩ := h.exists_append htoken
  refine ⟨String.ofList before, String.ofList after, ?_, ?_⟩
  · rw [← String.toList_inj, htext]
    simp
  · rw [hoffset, utf8ByteSize_ofList, Nat.zero_add]

theorem Tiles.covers {text : String} (h : Tiles 0 text.toList tokens) : Covers text tokens where
  boundary token htoken := by
    obtain ⟨before, after, rfl, hoffset⟩ := h.exists_text_append htoken
    exact String.Pos.Raw.isValid_iff_exists_append.2 ⟨before, _, rfl, by rw [hoffset]; rfl⟩
  bytes token htoken := by
    obtain ⟨before, after, rfl, hoffset⟩ := h.exists_text_append htoken
    rw [endOffset, hoffset]
    exact extract_toByteArray before token.kind.display after
  span _ := h.offset_lt_endOffset
  apart := h.pairwise
  within before c after htext hc := by
    have hlist : text.toList = before.toList ++ c :: after.toList := by simp [htext]
    simpa [byteCount_toList] using h.exists_span hlist hc
  rebuilt := by simpa using h.exists_gaps

/-- **Nothing of a text is lost** when it is cut into tokens, and their offsets are places in the
text. If there are no tokens, that is because of a single quote after which there is none; its
offset is reported, and what stands before it has tokens. -/
theorem scan_covers (text : String) :
    (∀ tokens, scan text = .ok tokens → Covers text tokens) ∧
    ∀ e, scan text = .error e → ∃ before after,
      text = before ++ "'" ++ after ∧ '\'' ∉ after.toList ∧
        e = .unterminatedString before.utf8ByteSize ∧ ∃ tokens, scan before = .ok tokens := by
  refine ⟨fun tokens h => (scanFrom_eq_ok_iff.1 h).tiles.covers, fun e h => ?_⟩
  obtain ⟨before, after, tokens, htext, hafter, rfl, hscans⟩ := breaks_of_scanFrom h
  refine ⟨String.ofList before, String.ofList after, ?_, by simpa using hafter, ?_, tokens, ?_⟩
  · rw [← String.toList_inj, htext]
    simp
  · rw [utf8ByteSize_ofList, Nat.zero_add]
  · rw [scan, String.toList_ofList, scanFrom_eq_ok_iff.2 hscans]

theorem scan_crowdedText : scan "é =\u00a0'a (b'(x'y" =
    .ok [⟨.word "é", 0⟩, ⟨.comparator .equal, 3⟩, ⟨.quoted "a (b", 6⟩, ⟨.openParen, 12⟩,
      ⟨.word "x'y", 13⟩] := by decide +kernel

theorem scan_openQuote : scan "x'y (é 'a b" = .error (.unterminatedString 8) := by decide +kernel

/-- In `é =\u00a0'a (b'(x'y` the bytes 6 to 12 are the quoted string; a quote within a word starts
none. In `x'y (é 'a b` only the second quote starts a string, which is not closed. -/
theorem scan_covers_crowdedText :
    (∃ tokens, scan "é =\u00a0'a (b'(x'y" = .ok tokens ∧ Covers "é =\u00a0'a (b'(x'y" tokens ∧
      ⟨.quoted "a (b", 6⟩ ∈ tokens ∧
      "é =\u00a0'a (b'(x'y".toByteArray.extract 6 12 = "'a (b'".toByteArray) ∧
    scan "x'y (é 'a b" = .error (.unterminatedString 8) ∧
    ∃ before after, "x'y (é 'a b" = before ++ "'" ++ after ∧ '\'' ∉ after.toList ∧
      before.utf8ByteSize = 8 ∧ ∃ tokens, scan before = .ok tokens := by
  have hcovers := (scan_covers _).1 _ scan_crowdedText
  obtain ⟨before, after, htext, hafter, herror, hscan⟩ := (scan_covers _).2 _ scan_openQuote
  refine ⟨⟨_, scan_crowdedText, hcovers, by simp, hcovers.bytes ⟨.quoted "a (b", 6⟩ (by simp)⟩,
    scan_openQuote, before, after, htext, hafter, ?_, hscan⟩
  exact (ParseError.unterminatedString.inj herror).symm

end Token

end Eligibility
