import Eligibility.Proofs.Grammar.Refusal
import Eligibility.Proofs.RoundTrip.Writable
import Eligibility.Proofs.Token.Placement
/-!
# Where the errors of a text point

A grammar error on a text names a byte offset, and what the error is about stands there in the text
(`ParseError.PointsAt`): the quote or the parenthesis that has no partner, the token that is not
expected, the connective or parenthesis before which there is no operand, or the token that a
condition does not go on with. What is missing behind the last token is reported where the text
ends, blanks aside.

The tokens of a text stand at their offsets (`standsAt_of_mem`), and the offset computed from the
last of them is that end of the text (`endOffset_of_scan`). So it remains to find the token behind
each error: `State.Refused` has it for a token that is refused, and `shortfall` for tokens that stop
short.
-/

namespace Eligibility

open Text Token

/-! ## Places in a text -/

/-- From a byte offset on, at which a character starts, a text reads like this. -/
def ReadsAt (text : String) (offset : Nat) (part : String) : Prop :=
  ∃ before after, text = before ++ (part ++ after) ∧ offset = before.utf8ByteSize

/-- A token of this kind stands at a byte offset of a text. -/
structure StandsAt (text : String) (kind : Kind) (offset : Nat) : Prop where
  isToken : ∃ tokens, scan text = .ok tokens ∧ ⟨kind, offset⟩ ∈ tokens
  reads : ReadsAt text offset kind.display

/-- The length in bytes of a text without the blanks at its end. -/
def trimmedLength (text : String) : Nat := byteCount (text.toList.rdropWhile isBlank)

/-- Where the remaining tokens of a text start, or the text ends if there are none. -/
def startOf (text : String) : List Token → Nat
  | [] => trimmedLength text
  | token :: _ => token.offset

/-- What an error on a text is about stands at the offset that it names. -/
def ParseError.PointsAt (text : String) : ParseError → Prop
  | .empty => False
  | .unterminatedString offset => ReadsAt text offset "'"
  | .unmatchedCloseParen offset => StandsAt text .closeParen offset
  | .unclosedParen offset => StandsAt text .openParen offset
  | .unexpectedToken token offset => ∃ kind, kind.display = token ∧ StandsAt text kind offset
  | .missingOperand offset =>
    (StandsAt text .closeParen offset ∨ ∃ op, StandsAt text (.connective op) offset) ∨
      offset = trimmedLength text
  | .incompleteCondition field .comparator offset =>
    ∃ before place after, scan text = .ok (before ++ ⟨.word field, place⟩ :: after) ∧
      RuleTree.BeforeOperand (before.map Token.kind) ∧ offset = startOf text after
  | .incompleteCondition field .literal offset =>
    ∃ before place op place' after,
      scan text = .ok (before ++ ⟨.word field, place⟩ :: ⟨.comparator op, place'⟩ :: after) ∧
      RuleTree.BeforeOperand (before.map Token.kind) ∧ offset = startOf text after

/-! ## Boundaries of characters -/

theorem isValid_of_append {text before after : String} (h : text = before ++ after) :
    String.Pos.Raw.IsValid text ⟨before.utf8ByteSize⟩ :=
  String.Pos.Raw.isValid_iff_exists_append.2 ⟨before, after, h, rfl⟩

theorem ReadsAt.isValid {text part : String} {offset : Nat} (h : ReadsAt text offset part) :
    String.Pos.Raw.IsValid text ⟨offset⟩ := by
  obtain ⟨before, after, htext, rfl⟩ := h
  exact isValid_of_append htext

theorem isValid_trimmedLength (text : String) :
    String.Pos.Raw.IsValid text ⟨trimmedLength text⟩ := by
  obtain ⟨tail, htail⟩ := List.rdropWhile_prefix isBlank text.toList
  have htext : text = String.ofList (text.toList.rdropWhile isBlank) ++ String.ofList tail := by
    rw [← String.ofList_append, htail, String.ofList_toList]
  rw [trimmedLength, ← utf8ByteSize_ofList]
  exact isValid_of_append htext

/-! ## Tokens in their places -/

namespace Token

variable {text : String} {tokens : List Token}

theorem standsAt_of_mem {kind : Kind} {offset : Nat} (hscan : scan text = .ok tokens)
    (hmem : ⟨kind, offset⟩ ∈ tokens) : StandsAt text kind offset where
  isToken := ⟨tokens, hscan, hmem⟩
  reads := (scanFrom_eq_ok_iff.1 hscan).tiles.exists_text_append hmem

/-- The written form of a token does not end with a blank. -/
theorem Kind.exists_concat_display {kind : Kind} (h : kind.isWritable = true) :
    ∃ init c, kind.display.toList = init ++ [c] ∧ isBlank c = false := by
  cases kind with
  | openParen => exact ⟨[], '(', rfl, isBlank_openParen⟩
  | closeParen => exact ⟨[], ')', rfl, isBlank_closeParen⟩
  | connective op => cases op with
    | and => exact ⟨['A', 'N'], 'D', rfl, by decide⟩
    | or => exact ⟨['O'], 'R', rfl, by decide⟩
  | comparator op => cases op <;> exact ⟨[], _, rfl, by decide⟩
  | quoted text => exact ⟨'\'' :: text.toList, '\'', by simp [Kind.display], isBlank_quote⟩
  | word text =>
    simp only [Kind.isWritable, isWord, Bool.and_eq_true] at h
    obtain ⟨⟨⟨hne, -⟩, hall⟩, -⟩ := h
    have hne : text.toList ≠ [] := by simpa using hne
    refine ⟨_, _, (List.dropLast_concat_getLast hne).symm, ?_⟩
    have hlast := List.all_eq_true.1 hall _ (List.getLast_mem hne)
    simp only [isWordChar, Bool.not_eq_true', Bool.or_eq_false_iff] at hlast
    exact hlast.1.1

/-- A character behind the last token is blank. -/
theorem isBlank_of_mem_after {init : List Token} {last : Token} {before after : List Char}
    (htiles : Tiles 0 text.toList (init ++ [last]))
    (htext : text.toList = before ++ (last.kind.display.toList ++ after))
    (hoffset : last.offset = byteCount before) : ∀ c ∈ after, isBlank c = true := by
  intro c hc
  by_contra hblank
  obtain ⟨skipped, rest, rfl⟩ := List.append_of_mem hc
  have hsplit : text.toList =
      before ++ (last.kind.display.toList ++ skipped) ++ c :: rest := by simpa using htext
  obtain ⟨token, htoken, -, hend⟩ := htiles.exists_span hsplit (Bool.eq_false_iff.2 hblank)
  -- this token would end behind the last one
  have hle : token.endOffset ≤ last.endOffset := by
    obtain htoken | htoken := List.mem_append.1 htoken
    · have hpair := (List.pairwise_append.1 htiles.pairwise).2.2 token htoken last (by simp)
      exact hpair.trans (Nat.le_add_right ..)
    · rw [List.mem_singleton.1 htoken]
  have hlast : last.endOffset = byteCount before + byteCount last.kind.display.toList := by
    rw [endOffset, hoffset, byteCount_toList]
  have := c.utf8Size_pos
  simp only [byteCount_append] at hend
  omega

/-- **The last token ends where the text ends**, blanks aside. -/
theorem endOffset_of_scan (hscan : scan text = .ok tokens) (hne : tokens ≠ []) :
    RuleTree.endOffset tokens = trimmedLength text := by
  obtain ⟨init, last, rfl⟩ := (List.eq_nil_or_concat' tokens).resolve_left hne
  have hscans := scanFrom_eq_ok_iff.1 hscan
  have hlast : last ∈ init ++ [last] := List.mem_append_right _ List.mem_cons_self
  obtain ⟨before, after, htext, hoffset⟩ := hscans.tiles.exists_append hlast
  rw [Nat.zero_add] at hoffset
  obtain ⟨written, c, hdisplay, hc⟩ :=
    Kind.exists_concat_display (hscans.isWritable _ (List.mem_map_of_mem hlast))
  have hafter := isBlank_of_mem_after hscans.tiles htext hoffset
  have htrim : text.toList.rdropWhile isBlank = before ++ last.kind.display.toList := by
    rw [htext, hdisplay, ← List.append_assoc, ← List.append_assoc,
      rdropWhile_concat_append hc hafter]
  have hend : RuleTree.endOffset (init ++ [last]) = last.endOffset := by
    rw [RuleTree.endOffset, List.getLast?_concat]
  rw [hend, trimmedLength, htrim, byteCount_append, byteCount_toList, ← hoffset, Token.endOffset]

end Token

/-! ## The tokens behind the errors -/

namespace RuleTree

namespace State

variable {suspended : List Suspended} {frame : Frame} {field : String} {tokens : List Token}

/-- Behind a field that waits for its comparator, the field is the last token. -/
theorem Follows.exists_field
    (h : Follows ⟨suspended, frame, .comparator field⟩ (tokens.map Token.kind)) :
    ∃ before place, tokens = before ++ [⟨.word field, place⟩] ∧
      Follows ⟨suspended, frame, .operand⟩ (before.map Token.kind) := by
  generalize hkinds : tokens.map Token.kind = kinds at h
  cases h with
  | comparator h =>
    obtain ⟨before, rest, rfl, rfl, hrest⟩ := List.map_eq_append_iff.1 hkinds
    obtain ⟨⟨_, place⟩, rfl, rfl⟩ := List.map_eq_singleton_iff.1 hrest
    exact ⟨before, place, rfl, h⟩

/-- Behind a comparator that waits for its literal, the comparator is the last token. -/
theorem Follows.exists_comparator {op : Comparator}
    (h : Follows ⟨suspended, frame, .literal field op⟩ (tokens.map Token.kind)) :
    ∃ before place, tokens = before ++ [⟨.comparator op, place⟩] ∧
      Follows ⟨suspended, frame, .comparator field⟩ (before.map Token.kind) := by
  generalize hkinds : tokens.map Token.kind = kinds at h
  cases h with
  | literal h =>
    obtain ⟨before, rest, rfl, rfl, hrest⟩ := List.map_eq_append_iff.1 hkinds
    obtain ⟨⟨_, place⟩, rfl, rfl⟩ := List.map_eq_singleton_iff.1 hrest
    exact ⟨before, place, rfl, h⟩

end State

/-- An open parenthesis is one of the tokens. -/
theorem mem_of_mem_openGroups {tokens : List Token} {offset : Nat}
    (h : offset ∈ openGroups tokens) : ⟨.openParen, offset⟩ ∈ tokens := by
  have hfold : ∀ (tokens : List Token) (groups : List Nat),
      offset ∈ tokens.foldl openAfter groups → offset ∈ groups ∨ ⟨.openParen, offset⟩ ∈ tokens := by
    intro tokens
    induction tokens with
    | nil => exact fun groups h => .inl h
    | cons token tokens ih =>
      intro groups h
      obtain ⟨kind, place⟩ := token
      obtain h | h := ih _ h
      · cases kind with
        | openParen =>
          obtain rfl | h := List.mem_cons.1 h
          · exact .inr List.mem_cons_self
          · exact .inl h
        | closeParen => exact .inl (List.mem_of_mem_tail h)
        | connective _ | comparator _ | word _ | quoted _ => exact .inl h
      · exact .inr (List.mem_cons_of_mem _ h)
  simpa using hfold tokens [] h

section Text

variable {text : String} {tokens before after : List Token} {token : Token} {state : State}
  {cause : ParseError}

/-- A condition that is open is reported where the tokens behind it start. -/
theorem pointsAt_incomplete {field : String} {part : ConditionPart}
    (hscan : scan text = .ok (before ++ after)) (hrun : State.start.run before = .ok state)
    (h : state.openCondition? = some (field, part)) :
    ParseError.PointsAt text (.incompleteCondition field part (startOf text after)) := by
  have hfollows := State.follows_of_run hrun
  obtain ⟨suspended, frame, phase⟩ := state
  cases phase with
  | operand | connective => simp [State.openCondition?] at h
  | comparator field =>
    obtain ⟨rfl, rfl⟩ := by simpa [State.openCondition?] using h
    obtain ⟨init, place, rfl, hinit⟩ := hfollows.exists_field
    exact ⟨init, place, after, by simpa using hscan, hinit.beforeOperand, rfl⟩
  | literal field op =>
    obtain ⟨rfl, rfl⟩ := by simpa [State.openCondition?] using h
    obtain ⟨init', place', rfl, hinit'⟩ := hfollows.exists_comparator
    obtain ⟨init, place, rfl, hinit⟩ := hinit'.exists_field
    exact ⟨init, place, op, place', after, by simpa using hscan, hinit.beforeOperand, rfl⟩

/-- **A token that is refused** stands where the error says. -/
theorem pointsAt_of_refused (hscan : scan text = .ok (before ++ token :: after))
    (hrun : State.start.run before = .ok state) (h : state.Refused token cause) :
    cause.PointsAt text := by
  have hstands : ∀ {kind}, token.kind = kind → StandsAt text kind token.offset := by
    rintro _ rfl
    exact standsAt_of_mem hscan (by simp)
  cases h with
  | incomplete hopen => exact pointsAt_incomplete hscan hrun hopen
  | missingOperand _ hkind => exact .inl (hkind.imp hstands fun ⟨op, hop⟩ => ⟨op, hstands hop⟩)
  | unmatched _ hkind => exact hstands hkind
  | unexpected => exact ⟨token.kind, rfl, hstands rfl⟩

/-- **What is missing at the end** is reported there, or at the parenthesis that is open. -/
theorem pointsAt_of_finish (hscan : scan text = .ok tokens) (hne : tokens ≠ [])
    (hrun : State.start.run tokens = .ok state)
    (h : state.finish (endOffset tokens) = .error cause) : cause.PointsAt text := by
  have hend := endOffset_of_scan hscan hne
  obtain rfl := State.eq_shortfall_of_finish hrun h
  have hopen := (State.follows_of_run hrun).openCondition?_eq
  unfold shortfall
  split
  · rename_i field part hsome
    have hscan : scan text = .ok (tokens ++ []) := by simpa using hscan
    exact hend ▸ pointsAt_incomplete hscan hrun (hopen.symm.trans hsome)
  · rename_i innermost _ _ hgroups
    exact standsAt_of_mem hscan (mem_of_mem_openGroups (hgroups ▸ List.mem_cons_self))
  · exact .inr hend

theorem pointsAt_of_ofTokens (hscan : scan text = .ok tokens) (hne : tokens ≠ [])
    (h : ofTokens tokens = .error cause) : cause.PointsAt text := by
  rw [ofTokens, if_neg (by simpa using hne), Except.bind_eq_error_iff] at h
  obtain h | ⟨state, hrun, hfinish⟩ := h
  · obtain ⟨before, token, after, state, rfl, hrun, hstep⟩ := State.exists_step_of_run_error h
    exact pointsAt_of_refused hscan hrun ((State.follows_of_run hrun).refused hstep)
  · exact pointsAt_of_finish hscan hne hrun hfinish

/-- A text has no tokens when it is blank. -/
theorem scan_eq_nil_iff : scan text = .ok [] ↔ ∀ c ∈ text.toList, isBlank c = true := by
  constructor
  · intro h c hc
    by_contra hblank
    obtain ⟨before, after, hsplit⟩ := List.append_of_mem hc
    obtain ⟨token, htoken, -⟩ :=
      (scanFrom_eq_ok_iff.1 h).tiles.exists_span hsplit (Bool.eq_false_iff.2 hblank)
    simp at htoken
  · intro h
    have hscans : Scans 0 (text.toList ++ []) [] := .blanks h .nil
    exact scanFrom_eq_ok_iff.2 (List.append_nil text.toList ▸ hscans)

/-- An error on a text points at something, or there is nothing in the text. -/
theorem pointsAt_of_compile (h : compile text = .error cause) :
    cause.PointsAt text ∨ cause = .empty ∧ scan text = .ok [] := by
  obtain h | ⟨tokens, hscan, h⟩ := Except.bind_eq_error_iff.1 h
  · obtain ⟨before, after, _, htext, -, rfl, -⟩ := breaks_of_scanFrom h
    refine .inl ⟨String.ofList before, String.ofList after, ?_, ?_⟩
    · rw [← String.toList_inj, htext]
      simp
    · rw [utf8ByteSize_ofList, Nat.zero_add]
  · by_cases hne : tokens = []
    · subst hne
      exact .inr ⟨(Except.error.inj h).symm, hscan⟩
    · exact .inl (pointsAt_of_ofTokens hscan hne h)

theorem compile_eq_empty_iff :
    compile text = .error .empty ↔ ∀ c ∈ text.toList, isBlank c = true := by
  rw [← scan_eq_nil_iff]
  constructor
  · intro h
    obtain h | ⟨-, hscan⟩ := pointsAt_of_compile h
    · exact h.elim
    · exact hscan
  · intro hscan
    rw [compile, hscan]
    rfl

/-! ## All errors -/

theorem isValid_startOf (hscan : scan text = .ok (before ++ after)) :
    String.Pos.Raw.IsValid text ⟨startOf text after⟩ := by
  cases after with
  | nil => exact isValid_trimmedLength text
  | cons token after =>
    have hstands : StandsAt text token.kind token.offset := standsAt_of_mem hscan (by simp)
    exact hstands.reads.isValid

/-- What an error points at starts where a character does, or is the end of the text. -/
theorem exists_offset_of_pointsAt (h : cause.PointsAt text) :
    ∃ offset, cause.offset? = some offset ∧ String.Pos.Raw.IsValid text ⟨offset⟩ := by
  cases cause with
  | empty => exact h.elim
  | unterminatedString offset => exact ⟨offset, rfl, ReadsAt.isValid h⟩
  | unmatchedCloseParen offset | unclosedParen offset =>
    exact ⟨offset, rfl, (StandsAt.reads h).isValid⟩
  | unexpectedToken token offset =>
    obtain ⟨kind, -, h⟩ := h
    exact ⟨offset, rfl, h.reads.isValid⟩
  | missingOperand offset =>
    obtain (h | ⟨op, h⟩) | rfl := h
    · exact ⟨offset, rfl, h.reads.isValid⟩
    · exact ⟨offset, rfl, h.reads.isValid⟩
    · exact ⟨_, rfl, isValid_trimmedLength text⟩
  | incompleteCondition field part offset =>
    cases part with
    | comparator =>
      obtain ⟨before, place, after, hscan, -, rfl⟩ := h
      rw [List.append_cons] at hscan
      exact ⟨_, rfl, isValid_startOf hscan⟩
    | literal =>
      obtain ⟨before, place, op, place', after, hscan, -, rfl⟩ := h
      rw [List.append_cons, List.append_cons] at hscan
      exact ⟨_, rfl, isValid_startOf hscan⟩

end Text

/-- **Errors point at what they name.** A text is reported as empty when it is blank, and only then.
Every other error names an offset between two characters or at an end of the text, and what the
error is about stands there. -/
theorem compile_error_points (text : String) :
    (compile text = .error .empty ↔ ∀ c ∈ text.toList, isBlank c = true) ∧
    ∀ cause, compile text = .error cause → cause ≠ .empty → cause.PointsAt text ∧
      ∃ offset, cause.offset? = some offset ∧ String.Pos.Raw.IsValid text ⟨offset⟩ := by
  refine ⟨compile_eq_empty_iff, fun cause h hne => ?_⟩
  have hpoints := (pointsAt_of_compile h).resolve_right fun hempty => hne hempty.1
  exact ⟨hpoints, exists_offset_of_pointsAt hpoints⟩

/-- In `é > 1 AND (b 2` the field `b` goes on with a `2`, at byte 14. In `é = 'x y' OR ` with two
blanks behind it an operand is missing at byte 13, where the connective ends. -/
theorem compile_error_points_accented :
    compile "é > 1 AND (b 2" = .error (.incompleteCondition "b" .comparator 14) ∧
      ParseError.PointsAt "é > 1 AND (b 2" (.incompleteCondition "b" .comparator 14) ∧
      String.Pos.Raw.IsValid "é > 1 AND (b 2" ⟨14⟩ ∧
    compile "é = 'x y' OR\u00a0 " = .error (.missingOperand 13) ∧
      ParseError.PointsAt "é = 'x y' OR\u00a0 " (.missingOperand 13) ∧
      trimmedLength "é = 'x y' OR\u00a0 " = 13 ∧
    compile "\u00a0 " = .error .empty := by
  have hfield : compile "é > 1 AND (b 2" = .error (.incompleteCondition "b" .comparator 14) := by
    decide +kernel
  have hoperand : compile "é = 'x y' OR\u00a0 " = .error (.missingOperand 13) := by
    decide +kernel
  have hblank : "\u00a0 ".toList.all isBlank = true := by decide
  obtain ⟨hpoints, offset, hoffset, hvalid⟩ := (compile_error_points _).2 _ hfield (by simp)
  obtain rfl := Option.some.inj hoffset
  exact ⟨hfield, hpoints, hvalid, hoperand, ((compile_error_points _).2 _ hoperand (by simp)).1,
    by decide +kernel, (compile_error_points _).1.2 (List.all_eq_true.1 hblank)⟩

end RuleTree

end Eligibility
