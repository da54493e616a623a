/-!
# Operators of the rule language

A rule compares facts with literals (`Comparator`) and joins comparisons (`Connective`). Each
operator is written as one word, read exactly: `ofSymbol?` and `ofKeyword?` accept nothing else,
neither other letter case nor surrounding blanks.
-/

namespace Eligibility

/-! ## Comparators -/

/-- How a fact is compared with a literal. -/
inductive Comparator
  | greater
  | less
  | equal
  deriving DecidableEq, Repr

namespace Comparator

/-- The written form of a comparator. -/
def symbol : Comparator → String
  | greater => ">"
  | less => "<"
  | equal => "="

/-- The comparator that a word stands for. -/
def ofSymbol? (word : String) : Option Comparator :=
  if word = ">" then some greater
  else if word = "<" then some less
  else if word = "=" then some equal
  else none

/-- Whether both sides are compared as numbers; `equal` compares texts. -/
def isNumeric : Comparator → Bool
  | greater | less => true
  | equal => false

@[simp] theorem ofSymbol?_symbol (comparator : Comparator) :
    ofSymbol? comparator.symbol = some comparator := by
  cases comparator <;> decide

theorem eq_symbol_of_ofSymbol? {word : String} {comparator : Comparator}
    (h : ofSymbol? word = some comparator) : word = comparator.symbol := by
  unfold ofSymbol? at h
  split at h
  · simp_all [symbol]
    subst h
    rfl
  · split at h
    · simp_all
      subst h
      rfl
    · split at h
      · simp_all
        subst h
        rfl
      · simp at h

end Comparator

/-! ## Connectives -/

/-- How two rules are joined. -/
inductive Connective
  | and
  | or
  deriving DecidableEq, Repr

namespace Connective

/-- The written form of a connective. -/
def keyword : Connective → String
  | and => "AND"
  | or => "OR"

/-- The connective that a word stands for, in capitals only. -/
def ofKeyword? (word : String) : Option Connective :=
  if word = "AND" then some and
  else if word = "OR" then some or
  else none

/-- The binding strength: the connective with the larger one binds tighter. -/
def precedence : Connective → Nat
  | and => 2
  | or => 1

/-- The truth of a joined rule from the truth of its two sides. -/
def apply : Connective → Bool → Bool → Bool
  | and, left, right => left && right
  | or, left, right => left || right

@[simp] theorem ofKeyword?_keyword (connective : Connective) :
    ofKeyword? connective.keyword = some connective := by
  cases connective <;> decide

theorem eq_keyword_of_ofKeyword? {word : String} {connective : Connective}
    (h : ofKeyword? word = some connective) : word = connective.keyword := by
  unfold ofKeyword? at h
  split at h
  · simp_all
    subst h
    rfl
  · split at h
    · simp_all
      subst h
      rfl
    · simp at h

end Connective

end Eligibility
