import Eligibility.Proofs.RoundTrip.Display
/-!
# What is read can be written

The tokens of a text are words that stand as words and quoted strings without quotes
(`Scans.isWritable`). A rule that tokens derive holds no other words and strings than theirs. So
every condition of a rule that is read from a text can be written down, although the reader checks
none of them (`isWritable_of_scan`).
-/

namespace Eligibility

open Token

namespace Token

/-- Whether a text can have a token of this kind. -/
def Kind.isWritable : Kind → Bool
  | .word text => isWord text
  | .quoted text => text.toList.all isQuotedChar
  | .openParen | .closeParen | .connective _ | .comparator _ => true

/-- A run of word characters that does not start with a quote is a token that a text can have. -/
theorem Kind.isWritable_ofWord {text : String} {c : Char} {cs : List Char}
    (htext : text.toList = c :: cs) (hquote : c ≠ '\'')
    (hrun : ∀ d ∈ c :: cs, isWordChar d = true) :
    (Kind.ofWord text).isWritable = true := by
  cases hkind : Kind.ofWord text with
  | openParen | closeParen | connective _ | comparator _ => rfl
  | quoted other =>
    unfold Kind.ofWord at hkind
    repeat' split at hkind
    all_goals simp at hkind
  | word other =>
    obtain rfl : other = text := by
      unfold Kind.ofWord at hkind
      repeat' split at hkind
      all_goals simp_all
    have hne : other ≠ "" := by
      rintro rfl
      simp at htext
    have hall : (c :: cs).all isWordChar = true := List.all_eq_true.2 hrun
    simp [isWritable, isWord, htext, hkind, hquote, hall, hne]

theorem Scans.isWritable {offset : Nat} {cs : List Char} {tokens : List Token}
    (h : Scans offset cs tokens) : ∀ kind ∈ tokens.map Token.kind, kind.isWritable = true := by
  induction h with
  | nil => simp
  | blank _ _ ih => exact ih
  | openParen _ ih | closeParen _ ih => exact List.forall_mem_cons.2 ⟨rfl, ih⟩
  | quoted hcontent _ ih =>
    refine List.forall_mem_cons.2 ⟨?_, ih⟩
    simpa [Kind.isWritable] using hcontent
  | run hquote hrun _ _ ih =>
    exact List.forall_mem_cons.2 ⟨Kind.isWritable_ofWord String.toList_ofList hquote hrun, ih⟩

end Token

namespace RuleTree

/-- **A rule can be written down if the tokens that derive it can.** -/
theorem Derives.isWritable {category : Category} {kinds : List Kind} {tree : RuleTree}
    (h : Derives category kinds tree) (hkinds : ∀ kind ∈ kinds, kind.isWritable = true) :
    tree.isWritable = true := by
  induction h with
  | ofTerm _ ih | ofFactor _ ih => exact ih hkinds
  | or _ _ ihl ihr | and _ _ ihl ihr =>
    obtain ⟨hl, hr⟩ := List.forall_mem_append.1 hkinds
    exact isWritable_join.2 ⟨ihl hl, ihr (List.forall_mem_cons.1 hr).2⟩
  | condition c =>
    obtain ⟨field, comparator, literal⟩ := c
    cases literal <;> simpa [Condition.kinds, Literal.kind, Kind.isWritable, RuleTree.isWritable,
      conditions, Condition.isWritable, Literal.isWritable] using hkinds
  | group _ ih =>
    rw [List.cons_append] at hkinds
    exact ih (List.forall_mem_append.1 (List.forall_mem_cons.1 hkinds).2).1

/-- A condition whose tokens are those of a text can be written down. -/
theorem isWritable_condition_of_scan {text : String} {tokens : List Token} {c : Condition}
    (hscan : scan text = .ok tokens) (hkinds : tokens.map Token.kind = c.kinds) :
    (condition c).isWritable = true :=
  (Derives.condition c).isWritable (hkinds ▸ (scanFrom_eq_ok_iff.1 hscan).isWritable)

/-- **A rule that is read from a text can be written down.** -/
theorem isWritable_of_scan {text : String} {tokens : List Token} {tree : RuleTree}
    (hscan : scan text = .ok tokens) (hread : ofTokens tokens = .ok tree) :
    tree.isWritable = true :=
  (derives_of_ofTokens hread).isWritable (scanFrom_eq_ok_iff.1 hscan).isWritable

end RuleTree

end Eligibility
