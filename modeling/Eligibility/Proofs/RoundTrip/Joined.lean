import Eligibility.Proofs.RoundTrip.Display
import Eligibility.RuleTree.Combination
import Mathlib.Data.List.Basic
/-!
# To join texts is to join rules

Texts of rules that are put in parentheses, with a connective between any two, are compiled to the
rules joined from left to right by this connective (`compile_joinTexts`), whatever connectives the
texts hold themselves.

A text spells the same tokens wherever it stands, and in parentheses they are a factor. With a
connective and a further factor behind it, a phrase that may stand on the left of the connective is
one again, so that the texts are added one by one (`compile_intercalate`).
-/

namespace Eligibility.RuleTree

open Token

variable {connective : Connective} {kinds : List Kind} {text : String} {texts : List String}
  {tree : RuleTree} {trees : List RuleTree}

/-- A text is compiled to a rule when it spells an expression that stands for the rule. -/
theorem compile_eq_ok_iff_spells :
    compile text = .ok tree ↔ ∃ kinds, Spells text kinds ∧ Derives .expression kinds tree := by
  rw [compile_eq_ok_iff]
  constructor
  · rintro ⟨tokens, hscan, hderives⟩
    exact ⟨_, .of_scan hscan, hderives⟩
  · rintro ⟨kinds, hspells, hderives⟩
    obtain ⟨tokens, hscan, rfl⟩ := hspells.scan_eq
    exact ⟨tokens, hscan, hderives⟩

/-- A text in parentheses is a factor. -/
theorem exists_spells_parenthesized (h : compile text = .ok tree) :
    ∃ kinds, Spells (parenthesized true text) kinds ∧ Derives .factor kinds tree := by
  obtain ⟨kinds, hspells, hderives⟩ := compile_eq_ok_iff_spells.1 h
  exact ⟨_, spells_parenthesized hspells true, .group hderives⟩

/-- What stands between two texts that are joined. -/
def separator (connective : Connective) : String :=
  " " ++ connective.keyword ++ " "

/-- Some texts in parentheses, joined by a connective. -/
def joinTexts (connective : Connective) (texts : List String) : String :=
  (separator connective).intercalate (texts.map (parenthesized true))

/-- Texts that are added in parentheses to what stands on the left of a connective join it one after
the other. -/
theorem compile_intercalate (hspells : Spells text kinds)
    (hderives : Derives (childCategory connective .left) kinds tree)
    (htexts : texts.mapM compile = .ok trees) :
    compile ((separator connective).intercalate (text :: texts.map (parenthesized true))) =
      .ok (trees.foldl (join connective) tree) := by
  induction texts generalizing text kinds tree trees with
  | nil =>
    obtain rfl : [] = trees := by simpa using htexts
    rw [List.map_nil, String.intercalate_singleton]
    exact compile_eq_ok_iff_spells.2 ⟨kinds, hspells, hderives.ofLeft⟩
  | cons next texts ih =>
    obtain ⟨nextTree, rest, hnext, hrest, rfl⟩ :
        ∃ nextTree rest, compile next = .ok nextTree ∧ texts.mapM compile = .ok rest ∧
          nextTree :: rest = trees := by simpa [List.mapM_cons] using htexts
    obtain ⟨kinds', hspells', hderives'⟩ := exists_spells_parenthesized hnext
    have hjoined := (hspells.spaced (.connective connective)).spaced hspells'
    rw [List.append_assoc] at hjoined
    have hjoin := ih hjoined (hderives.join (hderives'.loosen _)) hrest
    rw [List.map_cons, String.intercalate_cons_cons, ← String.intercalate_cons_append]
    simpa [separator, String.append_assoc] using hjoin

/-- **To join texts is to join rules.** Texts of rules, each in parentheses, with a connective
between any two, are compiled to the rules joined from left to right by that connective. -/
theorem compile_joinTexts (connective : Connective) (texts : List String) (trees : List RuleTree)
    (hne : texts ≠ []) (h : texts.mapM compile = .ok trees) :
    ∃ tree, combine connective trees = .ok tree ∧
      compile (joinTexts connective texts) = .ok tree := by
  obtain ⟨first, texts, rfl⟩ := List.exists_cons_of_ne_nil hne
  obtain ⟨firstTree, rest, hfirst, hrest, rfl⟩ :
      ∃ firstTree rest, compile first = .ok firstTree ∧ texts.mapM compile = .ok rest ∧
        firstTree :: rest = trees := by simpa [List.mapM_cons] using h
  obtain ⟨kinds, hspells, hderives⟩ := exists_spells_parenthesized hfirst
  exact ⟨_, rfl, compile_intercalate hspells (hderives.loosen _) hrest⟩

/-- The rules `name = 'a) OR (b'`, `b > 1 OR c > 2` and `d < 1 AND e < 2`, joined by `AND`. -/
theorem compile_joinTexts_mixedTexts :
    let trees : List RuleTree := [.condition ⟨"name", .equal, .quoted "a) OR (b"⟩,
      .join .or (.condition ⟨"b", .greater, .bare "1"⟩) (.condition ⟨"c", .greater, .bare "2"⟩),
      .join .and (.condition ⟨"d", .less, .bare "1"⟩) (.condition ⟨"e", .less, .bare "2"⟩)]
    let texts := ["name = 'a) OR (b'", "b > 1 OR c > 2", "d < 1 AND e < 2"]
    texts ≠ [] ∧ texts.mapM compile = .ok trees ∧ ∃ tree, combine .and trees = .ok tree ∧
      compile "(name = 'a) OR (b') AND (b > 1 OR c > 2) AND (d < 1 AND e < 2)" = .ok tree := by
  intro trees texts
  have hne : texts ≠ [] := List.cons_ne_nil _ _
  have htexts : texts.mapM compile = .ok trees := by decide +kernel
  exact ⟨hne, htexts, compile_joinTexts .and texts trees hne htexts⟩

end Eligibility.RuleTree
