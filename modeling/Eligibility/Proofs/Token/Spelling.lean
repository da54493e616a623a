import Eligibility.Condition
import Eligibility.Proofs.Outcome
import Eligibility.Proofs.Text.Split
/-!
# How tokens are spelled

`Scans offset cs tokens` says how a text falls into tokens, one rule for each kind of piece: blanks,
parentheses, quoted strings, and runs of other characters that end at a blank, at a parenthesis or
with the text. It is what `scanFrom` computes when it succeeds (`scanFrom_eq_ok_iff`).

Two texts side by side have the tokens of both, unless a run of the first goes on in the second
(`Scans.append`). From this, `Spells text kinds` is built up piece by piece: wherever the text
starts, it has tokens of these kinds. A word spells itself (`Spells.word`), and so does a string in
quotes that holds no quote (`Spells.quoted`).
-/

namespace Eligibility

open Text

namespace Token

/-! ## Texts that may be cut -/

/-- A text that ends with a blank or a parenthesis, or is empty. -/
def EndsApart (cs : List Char) : Prop := ∀ c ∈ cs.getLast?, isWordChar c = false

theorem endsApart_concat {c : Char} {cs : List Char} (h : isWordChar c = false) :
    EndsApart (cs ++ [c]) := by
  intro d hd
  rw [List.getLast?_concat] at hd
  obtain rfl := Option.some.inj hd
  exact h

theorem isWordChar_space : isWordChar ' ' = false := by decide

theorem isWordChar_openParen : isWordChar '(' = false := by decide

theorem isWordChar_closeParen : isWordChar ')' = false := by decide

theorem EndsApart.of_append {cs ds : List Char} (h : EndsApart (cs ++ ds)) : EndsApart ds := by
  intro c hc
  exact h c (by rw [List.getLast?_append, Option.mem_def.1 hc]; rfl)

theorem EndsApart.of_cons {c : Char} {cs : List Char} (h : EndsApart (c :: cs)) : EndsApart cs :=
  of_append (List.singleton_append ▸ h)

/-- A run of word characters does not end apart. -/
theorem not_endsApart {c : Char} {cs : List Char} (h : ∀ d ∈ c :: cs, isWordChar d = true) :
    ¬ EndsApart (c :: cs) := by
  intro hend
  have hlast := hend _ (List.getLast?_eq_some_getLast (List.cons_ne_nil c cs))
  rw [h _ (List.getLast_mem _)] at hlast
  exact Bool.noConfusion hlast

/-! ## The tokens of a text -/

/-- `Scans offset cs tokens`: a text that starts at a byte offset falls into these tokens. -/
inductive Scans : Nat → List Char → List Token → Prop
  | nil {offset : Nat} : Scans offset [] []
  | blank {offset : Nat} {c : Char} {rest : List Char} {tokens : List Token} :
    isBlank c = true → Scans (offset + c.utf8Size) rest tokens → Scans offset (c :: rest) tokens
  | openParen {offset : Nat} {rest : List Char} {tokens : List Token} :
    Scans (offset + 1) rest tokens → Scans offset ('(' :: rest) (⟨.openParen, offset⟩ :: tokens)
  | closeParen {offset : Nat} {rest : List Char} {tokens : List Token} :
    Scans (offset + 1) rest tokens → Scans offset (')' :: rest) (⟨.closeParen, offset⟩ :: tokens)
  | quoted {offset : Nat} {content rest : List Char} {tokens : List Token} :
    (∀ c ∈ content, isQuotedChar c = true) →
      Scans (offset + (byteCount content + 2)) rest tokens →
      Scans offset ('\'' :: (content ++ '\'' :: rest))
        (⟨.quoted (String.ofList content), offset⟩ :: tokens)
  | run {offset : Nat} {c : Char} {cs rest : List Char} {tokens : List Token} :
    c ≠ '\'' → (∀ d ∈ c :: cs, isWordChar d = true) → Stops isWordChar rest →
      Scans (offset + byteCount (c :: cs)) rest tokens →
      Scans offset (c :: (cs ++ rest)) (⟨.ofWord (String.ofList (c :: cs)), offset⟩ :: tokens)

/-- What follows the content of a quoted string is its closing quote. -/
theorem eq_quote_of_dropWhile {cs rest : List Char} {c : Char}
    (h : cs.dropWhile isQuotedChar = c :: rest) : c = '\'' := by
  have hstop := stops_dropWhile cs c (congrArg List.head? h)
  simpa [isQuotedChar] using hstop

theorem isWordChar_of_ne {c : Char} (hb : ¬ isBlank c = true) (ho : c ≠ '(') (hc : c ≠ ')') :
    isWordChar c = true := by
  simp [isWordChar, hb, ho, hc]

/-- What a scan takes for a word, up to the next blank or parenthesis, is a run. -/
theorem isWordChar_of_mem_run {c : Char} (rest : List Char) (hb : ¬ isBlank c = true) (ho : c ≠ '(')
    (hc : c ≠ ')') : ∀ d ∈ c :: rest.takeWhile isWordChar, isWordChar d = true :=
  List.forall_mem_cons.2 ⟨isWordChar_of_ne hb ho hc, mem_takeWhile⟩

theorem scans_of_scanFrom {offset : Nat} {cs : List Char} {tokens : List Token}
    (h : scanFrom offset cs = .ok tokens) : Scans offset cs tokens := by
  fun_induction scanFrom offset cs generalizing tokens with
  | case1 =>
    obtain rfl := Except.ok.inj h
    exact .nil
  | case2 offset c rest hblank ih => exact .blank hblank (ih h)
  | case3 offset rest _ ih =>
    obtain ⟨tail, htail, rfl⟩ := Except.map_eq_ok_iff.1 h
    exact .openParen (ih htail)
  | case4 offset rest _ _ ih =>
    obtain ⟨tail, htail, rfl⟩ := Except.map_eq_ok_iff.1 h
    exact .closeParen (ih htail)
  | case5 => simp at h
  | case6 offset rest content quote after hafter _ _ _ =>
    rename_i ih
    obtain ⟨tail, htail, rfl⟩ := Except.map_eq_ok_iff.1 h
    obtain rfl := eq_quote_of_dropWhile hafter
    have hscans := Scans.quoted mem_takeWhile (ih htail)
    rwa [← hafter, List.takeWhile_append_dropWhile] at hscans
  | case7 offset c rest hblank hopen hclose hquote word =>
    rename_i ih
    obtain ⟨tail, htail, rfl⟩ := Except.map_eq_ok_iff.1 h
    have hrun := isWordChar_of_mem_run rest hblank hopen hclose
    have hscans := Scans.run hquote hrun (stops_dropWhile rest) (ih htail)
    rwa [List.takeWhile_append_dropWhile] at hscans

theorem Scans.scanFrom_eq {offset : Nat} {cs : List Char} {tokens : List Token}
    (h : Scans offset cs tokens) : scanFrom offset cs = .ok tokens := by
  induction h with
  | nil => rw [scanFrom]
  | blank hblank _ ih => rw [scanFrom, if_pos hblank, ih]
  | openParen _ ih | closeParen _ ih =>
    rw [scanFrom]
    simp [isBlank_openParen, isBlank_closeParen, ih]
  | @quoted offset content rest tokens hcontent _ ih =>
    have hstop : Stops isQuotedChar ('\'' :: rest) := stops_cons (by decide)
    have hdrop := hstop.dropWhile_append hcontent
    rw [scanFrom, hstop.takeWhile_append hcontent, if_neg (by decide), if_neg (by decide),
      if_neg (by decide), if_pos rfl]
    split
    · simp_all
    · rename_i hafter
      obtain ⟨-, rfl⟩ := List.cons.inj (hdrop.symm.trans hafter)
      simp [ih]
  | @run offset c cs rest tokens hquote hrun hrest _ ih =>
    have htail : ∀ d ∈ cs, isWordChar d = true := fun d hd => hrun d (List.mem_cons_of_mem c hd)
    obtain ⟨⟨hblank, hopen⟩, hclose⟩ : (isBlank c = false ∧ c ≠ '(') ∧ c ≠ ')' := by
      simpa [isWordChar] using hrun c List.mem_cons_self
    rw [scanFrom, hrest.takeWhile_append htail, hrest.dropWhile_append htail]
    simp only [hblank, hopen, hclose, hquote, Bool.false_eq_true, if_false, ih]
    rfl

/-- **What a successful scan finds.** -/
theorem scanFrom_eq_ok_iff {offset : Nat} {cs : List Char} {tokens : List Token} :
    scanFrom offset cs = .ok tokens ↔ Scans offset cs tokens :=
  ⟨scans_of_scanFrom, Scans.scanFrom_eq⟩

/-! ## Texts side by side -/

theorem Scans.cast {offset offset' : Nat} {cs : List Char} {tokens : List Token}
    (h : Scans offset cs tokens) (e : offset = offset') : Scans offset' cs tokens :=
  e ▸ h

theorem Scans.blanks {offset : Nat} {gap cs : List Char} {tokens : List Token}
    (hgap : ∀ c ∈ gap, isBlank c = true) (h : Scans (offset + byteCount gap) cs tokens) :
    Scans offset (gap ++ cs) tokens := by
  induction gap generalizing offset with
  | nil => exact h
  | cons c gap ih =>
    obtain ⟨hc, hgap⟩ := List.forall_mem_cons.1 hgap
    exact .blank hc (ih hgap (h.cast (Nat.add_assoc ..).symm))

/-- Where a text starts does not matter to the kinds of its tokens. -/
theorem Scans.exists_moved {offset : Nat} {cs : List Char} {tokens : List Token}
    (h : Scans offset cs tokens) (offset' : Nat) :
    ∃ moved, Scans offset' cs moved ∧ moved.map Token.kind = tokens.map Token.kind := by
  induction h generalizing offset' with
  | nil => exact ⟨_, .nil, rfl⟩
  | blank hblank _ ih =>
    obtain ⟨moved, hscans, hkinds⟩ := ih _
    exact ⟨_, .blank hblank hscans, hkinds⟩
  | openParen _ ih =>
    obtain ⟨moved, hscans, hkinds⟩ := ih _
    exact ⟨_, .openParen hscans, by rw [List.map_cons, hkinds, List.map_cons]⟩
  | closeParen _ ih =>
    obtain ⟨moved, hscans, hkinds⟩ := ih _
    exact ⟨_, .closeParen hscans, by rw [List.map_cons, hkinds, List.map_cons]⟩
  | quoted hcontent _ ih =>
    obtain ⟨moved, hscans, hkinds⟩ := ih _
    exact ⟨_, .quoted hcontent hscans, by rw [List.map_cons, hkinds, List.map_cons]⟩
  | run hquote hrun hrest _ ih =>
    obtain ⟨moved, hscans, hkinds⟩ := ih _
    exact ⟨_, .run hquote hrun hrest hscans, by rw [List.map_cons, hkinds, List.map_cons]⟩

/-- **Two texts side by side** have the tokens of both, if the first ends apart or the second starts
apart. -/
theorem Scans.append {offset : Nat} {cs ds : List Char} {tokens tokens' : List Token}
    (h : Scans offset cs tokens) (hd : Scans (offset + byteCount cs) ds tokens')
    (hcut : EndsApart cs ∨ Stops isWordChar ds) : Scans offset (cs ++ ds) (tokens ++ tokens') := by
  induction h with
  | nil => exact hd
  | blank hblank _ ih =>
    exact .blank hblank (ih (hd.cast (Nat.add_assoc ..).symm) (hcut.imp_left .of_cons))
  | openParen _ ih =>
    exact .openParen (ih (hd.cast (Nat.add_assoc ..).symm) (hcut.imp_left .of_cons))
  | closeParen _ ih =>
    exact .closeParen (ih (hd.cast (Nat.add_assoc ..).symm) (hcut.imp_left .of_cons))
  | quoted hcontent _ ih =>
    have hquote : '\''.utf8Size = 1 := rfl
    have hrest := ih (hd.cast (by simp [hquote]; omega))
      (hcut.imp_left fun h => h.of_cons.of_append.of_cons)
    simpa using hrest.quoted hcontent
  | @run offset c cs rest tokens hquote hrun hrest _ ih =>
    have htail := ih (hd.cast (by simp; omega)) (hcut.imp_left fun h => h.of_cons.of_append)
    have hapart : Stops isWordChar (rest ++ ds) := by
      cases rest with
      | cons d rest => exact hrest
      | nil => exact hcut.resolve_left (by simpa using not_endsApart hrun)
    simpa using htail.run hquote hrun hapart

/-! ## Spelling -/

/-- `Spells text kinds`: wherever the text starts, its tokens are of these kinds. -/
def Spells (text : String) (kinds : List Kind) : Prop :=
  ∀ offset, ∃ tokens, Scans offset text.toList tokens ∧ tokens.map Token.kind = kinds

namespace Spells

variable {text text' : String} {kinds kinds' : List Kind}

theorem scan_eq (h : Spells text kinds) : ∃ tokens, scan text = .ok tokens ∧
    tokens.map Token.kind = kinds := by
  obtain ⟨tokens, hscans, hkinds⟩ := h 0
  exact ⟨tokens, scanFrom_eq_ok_iff.2 hscans, hkinds⟩

/-- A text spells the tokens that it has. -/
theorem of_scan {tokens : List Token} (h : scan text = .ok tokens) :
    Spells text (tokens.map Token.kind) :=
  (scanFrom_eq_ok_iff.1 h).exists_moved

theorem append (h : Spells text kinds) (h' : Spells text' kinds')
    (hcut : EndsApart text.toList ∨ Stops isWordChar text'.toList) :
    Spells (text ++ text') (kinds ++ kinds') := by
  intro offset
  obtain ⟨tokens, hscans, rfl⟩ := h offset
  obtain ⟨tokens', hscans', rfl⟩ := h' (offset + byteCount text.toList)
  refine ⟨tokens ++ tokens', ?_, List.map_append⟩
  rw [String.toList_append]
  exact hscans.append hscans' hcut

theorem space : Spells " " [] :=
  fun _ => ⟨[], .blank isBlank_space .nil, rfl⟩

/-- Two texts with a space between them. -/
theorem spaced (h : Spells text kinds) (h' : Spells text' kinds') :
    Spells (text ++ " " ++ text') (kinds ++ kinds') := by
  have hspace : Spells (text ++ " ") kinds := by
    simpa using h.append space (.inr (stops_cons isWordChar_space))
  refine hspace.append h' (.inl ?_)
  rw [String.toList_append]
  exact endsApart_concat isWordChar_space

theorem openParen : Spells "(" [.openParen] :=
  fun _ => ⟨_, .openParen .nil, rfl⟩

theorem closeParen : Spells ")" [.closeParen] :=
  fun _ => ⟨_, .closeParen .nil, rfl⟩

theorem parenthesized (h : Spells text kinds) :
    Spells ("(" ++ text ++ ")") (.openParen :: kinds ++ [.closeParen]) := by
  have hopen : Spells ("(" ++ text) (.openParen :: kinds) :=
    openParen.append h (.inl (@endsApart_concat '(' [] isWordChar_openParen))
  exact hopen.append closeParen (.inr (stops_cons isWordChar_closeParen))

theorem quoted (h : text.toList.all isQuotedChar = true) :
    Spells ("'" ++ text ++ "'") [.quoted text] := by
  intro offset
  have hscans : Scans offset ('\'' :: (text.toList ++ '\'' :: []))
      [⟨.quoted (String.ofList text.toList), offset⟩] := .quoted (List.all_eq_true.1 h) .nil
  exact ⟨_, by simpa using hscans, by simp⟩

/-- A run of word characters that does not start with a quote is a single token. -/
theorem run (h : text ≠ "" ∧ text.toList.head? ≠ some '\'' ∧ text.toList.all isWordChar = true) :
    Spells text [.ofWord text] := by
  intro offset
  obtain ⟨hne, hquote, hall⟩ := h
  cases hcs : text.toList with
  | nil => exact absurd (String.toList_eq_nil_iff.1 hcs) hne
  | cons c cs =>
    rw [hcs] at hquote hall
    have hc : c ≠ '\'' := fun hc => hquote (congrArg some hc)
    have hscans : Scans offset (c :: (cs ++ [])) [⟨.ofWord (String.ofList (c :: cs)), offset⟩] :=
      .run hc (List.all_eq_true.1 hall) stops_nil .nil
    rw [← hcs, String.ofList_toList, List.append_nil] at hscans
    exact ⟨_, hscans, rfl⟩

theorem word (h : isWord text = true) : Spells text [.word text] := by
  simp only [isWord, Bool.and_eq_true, beq_iff_eq] at h
  obtain ⟨⟨⟨hne, hquote⟩, hall⟩, hword⟩ := h
  rw [← hword]
  exact run ⟨by simpa using hne, by simpa using hquote, hall⟩

theorem connective (op : Connective) : Spells op.keyword [.connective op] := by
  cases op with
  | and => exact run (by decide)
  | or => exact run (by decide)

theorem comparator (op : Comparator) : Spells op.symbol [.comparator op] := by
  cases op with
  | greater => exact run (by decide)
  | less => exact run (by decide)
  | equal => exact run (by decide)

end Spells

end Token

end Eligibility
