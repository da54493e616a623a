import Eligibility.Proofs.Encoding.Denotation
import Eligibility.Proofs.RoundTrip.Joined
import Eligibility.Proofs.RuleTree.Combination
/-!
# Rules that have been read

Readers make conditions out of tokens and check none of them. Only `Literal.bare?`,
`Literal.quoted?` and `Condition.of?` check, and they are passed by. Yet a rule that has been read
from a text or a value, or combined from such rules (`Obtained`), holds no other conditions than
these would build (`Obtained.isWritable`): the tokenizer cuts words and strings that pass. So it can
be written and encoded, and is read again (`obtained_checked`).
-/

namespace Eligibility

/-! ## Checked constructors -/

namespace Literal

variable {literal : Literal}

/-- A checked constructor builds the literal from some text. -/
def Checked (literal : Literal) : Prop :=
  ∃ text, bare? text = .ok literal ∨ quoted? text = .ok literal

theorem bare?_eq_ok_iff {text : String} :
    bare? text = .ok literal ↔ literal = .bare text ∧ literal.isWritable = true := by
  rw [bare?]
  split <;> grind

theorem quoted?_eq_ok_iff {text : String} :
    quoted? text = .ok literal ↔ literal = .quoted text ∧ literal.isWritable = true := by
  rw [quoted?]
  split <;> grind

theorem checked_iff : literal.Checked ↔ literal.isWritable = true := by
  simp only [Checked, bare?_eq_ok_iff, quoted?_eq_ok_iff]
  constructor
  · rintro ⟨text, ⟨-, h⟩ | ⟨-, h⟩⟩ <;> exact h
  · intro h
    cases literal with
    | bare text => exact ⟨text, .inl ⟨rfl, h⟩⟩
    | quoted text => exact ⟨text, .inr ⟨rfl, h⟩⟩

theorem isWritable_iff : literal.isWritable = true ↔
    (∀ text, literal = .bare text → isWord text = true) ∧
      ∀ text, literal = .quoted text → '\'' ∉ text.toList := by
  cases literal with
  | bare text => simp [isWritable]
  | quoted text => simp [isWritable, Token.isQuotedChar, List.forall_mem_ne']

end Literal

namespace Condition

variable {c : Condition}

/-- The checked constructors build the condition. -/
def Checked (c : Condition) : Prop :=
  ∃ field comparator literal, literal.Checked ∧ of? field comparator literal = .ok c

theorem checked_iff : c.Checked ↔ c.isWritable = true := by
  rw [isWritable, Bool.and_eq_true]
  constructor
  · rintro ⟨field, comparator, literal, hliteral, hof⟩
    rw [of?] at hof
    split at hof
    · rename_i hfield
      obtain rfl := Except.ok.inj hof
      exact ⟨hfield, Literal.checked_iff.1 hliteral⟩
    · cases hof
  · rintro ⟨hfield, hliteral⟩
    exact ⟨c.field, c.comparator, c.literal, Literal.checked_iff.2 hliteral, if_pos hfield⟩

end Condition

namespace RuleTree

/-! ## Obtained rules -/

/-- `Obtained tree`: the rule has been read from a text, from a condition or from JSON, or has been
combined from rules that have been. -/
inductive Obtained : RuleTree → Prop
  | compiled {text : String} {tree : RuleTree} (h : compile text = .ok tree) : Obtained tree
  | condition {text : String} {c : Condition} (h : Condition.read text = .ok c) :
    Obtained (.condition c)
  | decoded {value : Json} {tree : RuleTree} (h : ofJson value = .ok tree) : Obtained tree
  | read {text : String} {tree : RuleTree} (h : read text = .ok tree) : Obtained tree
  | combined {connective : Connective} {trees : List RuleTree} {tree : RuleTree}
    (hparts : ∀ part ∈ trees, Obtained part) (h : combine connective trees = .ok tree) :
    Obtained tree

variable {tree : RuleTree}

theorem isWritable_iff :
    tree.isWritable = true ↔ ∀ c ∈ tree.conditions, c.isWritable = true :=
  List.all_eq_true

/-- **What has been read can be written down**, and so can what is combined from it. -/
theorem Obtained.isWritable (h : Obtained tree) : tree.isWritable = true := by
  induction h with
  | compiled h =>
    obtain ⟨tokens, hscan, hread⟩ := Except.bind_eq_ok_iff.1 h
    exact isWritable_of_scan hscan hread
  | condition h =>
    obtain ⟨tokens, hscan, hkinds⟩ := Condition.read_eq_ok_iff.1 h
    exact isWritable_condition_of_scan hscan hkinds
  | decoded h => exact (denotes_of_ofJsonAt h).isWritable
  | @read text tree h =>
    rw [RuleTree.read] at h
    split at h
    · cases h
    · exact (denotes_of_ofJsonAt h).isWritable
  | combined _ h ih =>
    rw [isWritable_iff, conditions_of_combine h]
    intro c hc
    obtain ⟨part, hpart, hc⟩ := List.mem_flatMap.1 hc
    exact isWritable_iff.1 (ih part hpart) c hc

/-- **Every rule that has been read is printable and encodable.** Its conditions are ones that the
checked constructors build: fields and bare literals are words, quoted literals hold no quote. So
its written form and its encoding are read as the rule again. A condition that the checked
constructors build is read from its written form. -/
theorem obtained_checked :
    (∀ tree, Obtained tree →
      (∀ c ∈ tree.conditions, c.Checked ∧ isWord c.field = true ∧
        (∀ text, c.literal = .bare text → isWord text = true) ∧
        ∀ text, c.literal = .quoted text → '\'' ∉ text.toList) ∧
      compile tree.display = .ok tree ∧ ofJson tree.toJson = .ok tree) ∧
    ∀ c, Condition.Checked c → Condition.read c.display = .ok c := by
  refine ⟨fun tree hobtained => ?_, fun c hc => Condition.read_display (Condition.checked_iff.1 hc)⟩
  have hwritable := hobtained.isWritable
  have hcompile := compile_eq_ok_iff_spells.2
    ⟨tree.kinds, spells_display hwritable, (derives_kinds tree).toExpression⟩
  refine ⟨fun c hc => ?_, hcompile, ofJsonAt_toJson hwritable []⟩
  have hchecked := isWritable_iff.1 hwritable c hc
  obtain ⟨hfield, hliteral⟩ := Bool.and_eq_true_iff.1 hchecked
  exact ⟨Condition.checked_iff.2 hchecked, hfield, Literal.isWritable_iff.1 hliteral⟩

/-- The condition `a'b < '('`. -/
def quoteMarkCondition : Condition := ⟨"a'b", .less, .quoted "("⟩

/-- A compiled rule and a decoded one, combined. -/
def gatheredRule : RuleTree :=
  .join .or (.condition quoteMarkCondition) (.condition ⟨"age", .greater, .bare "18"⟩)

theorem obtained_gatheredRule : Obtained gatheredRule := by
  have hcompiled : Obtained (.condition quoteMarkCondition) :=
    @Obtained.compiled "(a'b <\u00a0'(')" _ (by decide +kernel)
  have hdecoded : Obtained (.condition ⟨"age", .greater, .bare "18"⟩) :=
    @Obtained.decoded looseLeaf _ (Denotes.ofJsonAt_eq
      (.operand rfl (.inl rfl) (.inr rfl) rfl scan_looseLeaf rfl) [])
  exact @Obtained.combined .or [_, _] _ (by simp [hcompiled, hdecoded]) rfl

/-- A quote inside a word and a parenthesis inside quotes are read again. -/
theorem obtained_checked_gatheredRule :
    Obtained gatheredRule ∧ isWord quoteMarkCondition.field = true ∧ '\'' ∉ "(".toList ∧
      compile gatheredRule.display = .ok gatheredRule ∧ quoteMarkCondition.Checked ∧
      Condition.read quoteMarkCondition.display = .ok quoteMarkCondition := by
  obtain ⟨hobtained, hread⟩ := obtained_checked
  obtain ⟨hconditions, hcompile, -⟩ := hobtained gatheredRule obtained_gatheredRule
  obtain ⟨hchecked, hfield, -, hquoted⟩ := hconditions quoteMarkCondition List.mem_cons_self
  exact ⟨obtained_gatheredRule, hfield, hquoted "(" rfl, hcompile, hchecked, hread _ hchecked⟩

end RuleTree

end Eligibility
