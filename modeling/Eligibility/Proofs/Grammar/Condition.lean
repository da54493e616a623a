import Eligibility.Proofs.Grammar.Reader
import Mathlib.Data.List.Basic
/-!
# Single conditions

A condition is read by `Condition.read`, which takes three tokens one after the other, and by
`RuleTree.compile`, as a rule that has no other node.

As a rule it may stand in any number of parentheses, all of which open before it and close behind it
(`derives_condition_iff`). `Condition.read` knows no parentheses, and it takes a text just when the
text compiles to a condition and has none. Where a word comes first, with at most two tokens behind
it, nothing but a condition can be meant, and the two readers agree in all outcomes
(`ofTokens_eq_map_condition`): they refuse such a text for the same reason
(`Condition.read_agrees_with_compile`).
-/

namespace Eligibility

open Token (Kind scan)

namespace RuleTree

/-! ## Conditions in parentheses -/

/-- **The phrases for a condition** are the condition itself in any number of parentheses. -/
theorem derives_condition_iff {category : Category} {kinds : List Kind} {c : Condition} :
    Derives category kinds (.condition c) ↔
      ∃ n, kinds = List.replicate n .openParen ++ c.kinds ++ List.replicate n .closeParen := by
  constructor
  · intro h
    generalize htree : condition c = tree at h
    induction h with
    | ofTerm _ ih | ofFactor _ ih => exact ih htree
    | or | and => cases htree
    | condition c' =>
      obtain rfl := condition.inj htree
      exact ⟨0, by simp⟩
    | group _ ih =>
      obtain ⟨n, rfl⟩ := ih htree
      refine ⟨n + 1, ?_⟩
      rw [List.replicate_succ, List.replicate_succ']
      simp only [List.cons_append, List.append_assoc]
  · rintro ⟨n, rfl⟩
    induction n generalizing category with
    | zero => simpa using (Derives.condition c).loosen category
    | succ n ih =>
      have hgroup := (Derives.group (@ih .expression)).loosen category
      rw [List.replicate_succ, List.replicate_succ']
      simpa only [List.cons_append, List.append_assoc] using hgroup

/-- Without parentheses only the condition itself is left. -/
theorem kinds_eq_of_derives_condition {category : Category} {kinds : List Kind} {c : Condition}
    (h : Derives category kinds (.condition c)) (hparen : .openParen ∉ kinds) :
    kinds = c.kinds := by
  obtain ⟨n, rfl⟩ := derives_condition_iff.1 h
  cases n with
  | zero => simp
  | succ n => simp [List.replicate_succ] at hparen

/-! ## The two readers on few tokens -/

namespace State

variable {suspended : List Suspended} {frame : Frame} {field : String} {comparator : Comparator}

theorem run_comparator (token : Token) (rest : List Token) :
    run ⟨suspended, frame, .comparator field⟩ (token :: rest) =
      Condition.comparatorOf field token >>= fun comparator =>
        run ⟨suspended, frame, .literal field comparator⟩ rest := by
  rw [run, List.foldlM_cons, step, bind_assoc]
  rfl

theorem run_literal (token : Token) (rest : List Token) :
    run ⟨suspended, frame, .literal field comparator⟩ (token :: rest) =
      Condition.literalOf field token >>= fun literal =>
        run ⟨suspended, frame.push (.condition ⟨field, comparator, literal⟩), .connective⟩
          rest := by
  rw [run, List.foldlM_cons, step, bind_assoc]
  rfl

end State

/-- **On a word with at most two tokens behind it** the reader of rules does what the reader of
conditions does. -/
theorem ofTokens_eq_map_condition {first : Token} {rest : List Token} {field : String}
    (hfirst : first.kind = .word field) (hlength : rest.length ≤ 2) :
    ofTokens (first :: rest) = condition <$> Condition.ofTokens (first :: rest) := by
  obtain ⟨_, offset⟩ := first
  obtain rfl : _ = Kind.word field := hfirst
  have hrun : ∀ rest, ofTokens (⟨.word field, offset⟩ :: rest) =
      State.run ⟨[], .empty, .comparator field⟩ rest >>= fun state =>
        state.finish (endOffset (⟨.word field, offset⟩ :: rest)) := fun _ => rfl
  -- both ask `comparatorOf` and `literalOf`; where tokens are missing, the last tells the offset
  rcases rest with _ | ⟨second, _ | ⟨third, _ | ⟨extra, rest⟩⟩⟩
  · rfl
  · have hread : Condition.ofTokens [⟨.word field, offset⟩, second] =
        Condition.comparatorOf field second >>= fun _ =>
          .error (.incompleteCondition field .literal second.endOffset) := rfl
    rw [hrun, hread, State.run_comparator]
    cases Condition.comparatorOf field second <;> rfl
  · have hread : Condition.ofTokens [⟨.word field, offset⟩, second, third] =
        Condition.comparatorOf field second >>= fun comparator =>
          Condition.literalOf field third >>= fun literal =>
            .ok ⟨field, comparator, literal⟩ := rfl
    rw [hrun, hread, State.run_comparator]
    cases Condition.comparatorOf field second with
    | error cause => rfl
    | ok comparator =>
      rw [Except.ok_bind, Except.ok_bind, State.run_literal]
      cases Condition.literalOf field third <;> rfl
  · simp at hlength

end RuleTree

/-! ## The two readers on texts -/

namespace Condition

variable {text : String} {c : Condition} {cause : ParseError}

theorem kinds_ne_paren : ∀ kind ∈ c.kinds, kind ≠ .openParen ∧ kind ≠ .closeParen := by
  obtain ⟨field, comparator, literal⟩ := c
  cases literal <;> simp [kinds, Literal.kind]

/-- A text is read as a condition when it compiles to it and is free of parentheses. -/
theorem read_eq_ok_iff_compile : read text = .ok c ↔
    RuleTree.compile text = .ok (.condition c) ∧ ∃ tokens, scan text = .ok tokens ∧
      ∀ token ∈ tokens, token.kind ≠ .openParen ∧ token.kind ≠ .closeParen := by
  rw [read_eq_ok_iff, RuleTree.compile_eq_ok_iff]
  constructor
  · rintro ⟨tokens, hscan, hkinds⟩
    refine ⟨⟨tokens, hscan, RuleTree.derives_condition_iff.2 ⟨0, by simp [hkinds]⟩⟩,
      tokens, hscan, fun token htoken => ?_⟩
    exact kinds_ne_paren token.kind (hkinds ▸ List.mem_map_of_mem htoken)
  · rintro ⟨⟨tokens, hscan, hderives⟩, tokens', hscan', hfree⟩
    obtain rfl := Except.ok.inj (hscan.symm.trans hscan')
    refine ⟨tokens, hscan, RuleTree.kinds_eq_of_derives_condition hderives fun hmem => ?_⟩
    obtain ⟨token, htoken, hkind⟩ := List.mem_map.1 hmem
    exact (hfree token htoken).1 hkind

/-- A text is refused for the same reason by both readers when it has no tokens at all, since a
quote is not closed, or when there are no more of them than a condition has and a word comes
first. -/
theorem read_eq_error_iff_compile (htokens : ∀ tokens, scan text = .ok tokens →
      tokens.length ≤ 3 ∧ ∃ first ∈ tokens.head?, ∃ field, first.kind = .word field) :
    read text = .error cause ↔ RuleTree.compile text = .error cause := by
  rw [read, RuleTree.compile]
  cases hscan : scan text with
  | error e => simp only [Except.error_bind, Except.error.injEq]
  | ok tokens =>
    obtain ⟨hlength, first, hhead, field, hfirst⟩ := htokens tokens hscan
    obtain ⟨rest, rfl⟩ := List.head?_eq_some_iff.1 hhead
    rw [Except.ok_bind, Except.ok_bind,
      RuleTree.ofTokens_eq_map_condition hfirst (Nat.le_of_succ_le_succ hlength),
      Except.map_eq_error_iff]

/-- **Conditions are read as rules without parentheses.** A text is read as a condition just when it
compiles to the rule that is this condition and no token is a parenthesis. If the tokens, if any,
start with a word and are no more than three, then what is refused as a condition is refused as a
rule, with the same error, and the other way round. -/
theorem read_agrees_with_compile (text : String) :
    (∀ c, read text = .ok c ↔
      RuleTree.compile text = .ok (.condition c) ∧ ∃ tokens, scan text = .ok tokens ∧
        ∀ token ∈ tokens, token.kind ≠ .openParen ∧ token.kind ≠ .closeParen) ∧
    ((∀ tokens, scan text = .ok tokens →
        tokens.length ≤ 3 ∧ ∃ first ∈ tokens.head?, ∃ field, first.kind = .word field) →
      ∀ cause, read text = .error cause ↔ RuleTree.compile text = .error cause) :=
  ⟨fun _ => read_eq_ok_iff_compile, fun htokens _ => read_eq_error_iff_compile htokens⟩

theorem scan_brokenOff : scan "größe >\u00a0 " =
    .ok [⟨.word "größe", 0⟩, ⟨.comparator .greater, 8⟩] := by decide +kernel

/-- In `größe >` with blanks behind it both readers miss the literal at byte 9. The parenthesis of
`a'b < '('` is no token, but those of `(a'b < '(')` are. -/
theorem read_agrees_with_compile_brokenOff :
    scan "größe >\u00a0 " = .ok [⟨.word "größe", 0⟩, ⟨.comparator .greater, 8⟩] ∧
      read "größe >\u00a0 " = .error (.incompleteCondition "größe" .literal 9) ∧
      RuleTree.compile "größe >\u00a0 " = .error (.incompleteCondition "größe" .literal 9) ∧
    RuleTree.compile "a'b < '('" = .ok (.condition ⟨"a'b", .less, .quoted "("⟩) ∧
      read "a'b < '('" = .ok ⟨"a'b", .less, .quoted "("⟩ ∧
    RuleTree.compile "(a'b < '(')" = .ok (.condition ⟨"a'b", .less, .quoted "("⟩) ∧
      read "(a'b < '(')" = .error (.unexpectedToken "(" 0) := by
  have hbrokenOff : read "größe >\u00a0 " = .error (.incompleteCondition "größe" .literal 9) := by
    decide +kernel
  have hshort : ∀ tokens, scan "größe >\u00a0 " = .ok tokens →
      tokens.length ≤ 3 ∧ ∃ first ∈ tokens.head?, ∃ field, first.kind = .word field := by
    intro tokens h
    obtain rfl := Except.ok.inj (scan_brokenOff.symm.trans h)
    exact ⟨by decide, _, rfl, _, rfl⟩
  have hread : read "a'b < '('" = .ok ⟨"a'b", .less, .quoted "("⟩ := by decide +kernel
  exact ⟨scan_brokenOff, hbrokenOff, ((read_agrees_with_compile _).2 hshort _).1 hbrokenOff,
    (((read_agrees_with_compile _).1 _).1 hread).1, hread, by decide +kernel, by decide +kernel⟩

end Condition

end Eligibility
