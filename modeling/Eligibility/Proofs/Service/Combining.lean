import Eligibility.Proofs.Service.Use
/-!
# Combining within the limit of depth

A service tells the depth of a combined rule before it builds the rule, and refuses to build one
that is too deep. It refuses just the rules that it could not use afterwards: what is told is the
depth of what would be built (`combine_of_lt`), so that every rule that is combined at all can be
evaluated and explained, as can every rule that is decoded (`GivesOut.depth_le`).

The connective is looked at last. Rules that are too deep together are refused for their depth, even
if the word between them is no connective (`refusesDepth_combine_iff`).
-/

namespace Eligibility.Service

variable {limits : Limits} {catalog : Catalog} {connective : Connective} {word : String}
  {trees : List RuleTree} {tree : RuleTree} {failure : Failure}

/-! ## The depth that is told before -/

/-- Rules that are too deep together are not combined, whatever the word between them is. -/
theorem combine_of_lt (h : RuleTree.combine connective trees = .ok tree)
    (hdepth : limits.maxTreeDepth < tree.depth) :
    combine limits word trees = .error (limits.tooDeep tree) := by
  rw [combine, RuleTree.combinedDepth_of_combine h]
  change (limits.checkDepth tree.depth).mapError Failure.validation >>= _ = _
  rw [Limits.checkDepth_of_lt hdepth, Except.error_bind]

/-- Rules that are not too deep together are combined, if the word is a connective. -/
theorem combine_of_le (h : RuleTree.combine connective trees = .ok tree)
    (hdepth : tree.depth ≤ limits.maxTreeDepth) :
    combine limits word trees = (RuleTree.combineWith word trees).mapError .validation := by
  rw [combine, RuleTree.combinedDepth_of_combine h]
  change (limits.checkDepth tree.depth).mapError Failure.validation >>= _ = _
  rw [Limits.checkDepth_of_le hdepth, Except.ok_bind]

theorem combine_nil :
    combine limits word [] = (RuleTree.combineWith word []).mapError .validation := rfl

/-- **A service combines no rule that is too deep for it.** -/
theorem depth_le_of_combine (h : combine limits word trees = .ok tree) :
    tree.depth ≤ limits.maxTreeDepth := by
  obtain ⟨connective, -, hcombine⟩ := Except.bind_eq_ok_iff.1 (combineWith_of_combine h)
  refine Nat.le_of_not_lt fun hdepth => ?_
  rw [combine_of_lt hcombine hdepth] at h
  cases h

/-! ## Refusals for depth -/

/-- An outcome is the refusal of a rule that is too deep, with this failure. -/
def RefusesDepth {α : Type} (outcome : Except Failure α) (failure : Failure) : Prop :=
  outcome = .error failure ∧ failure.isTooDeep = true

/-- Rules are too deep together: the rule that a connective makes of them is deeper than the limit,
and the failure names its depth. -/
def TooDeepTogether (limits : Limits) (connective : Connective) (trees : List RuleTree)
    (failure : Failure) : Prop :=
  ∃ tree, RuleTree.combine connective trees = .ok tree ∧ limits.maxTreeDepth < tree.depth ∧
    failure = limits.tooDeep tree

/-- The connective and the number of rules are never found too deep. -/
theorem not_refusesDepth_combineWith :
    ¬ RefusesDepth ((RuleTree.combineWith word trees).mapError .validation) failure := by
  rintro ⟨herror, hdeep⟩
  unfold RuleTree.combineWith RuleTree.connectiveOf at herror
  split at herror
  · cases trees with
    | nil =>
      obtain rfl := Except.error.inj herror
      cases hdeep
    | cons first rest => cases herror
  · obtain rfl := Except.error.inj herror
    cases hdeep

/-- **Rules are refused for their depth just when they are too deep together**, whatever the word
between them is: the depth does not depend on the connective. -/
theorem refusesDepth_combine_iff (connective : Connective) :
    RefusesDepth (combine limits word trees) failure ↔
      TooDeepTogether limits connective trees failure := by
  constructor
  · intro hrefuses
    cases trees with
    | nil => exact absurd hrefuses (combine_nil ▸ not_refusesDepth_combineWith)
    | cons first rest =>
      obtain ⟨tree, htree⟩ := RuleTree.exists_combine connective (List.cons_ne_nil first rest)
      by_cases hdepth : limits.maxTreeDepth < tree.depth
      · have herror := hrefuses.1
        rw [combine_of_lt htree hdepth] at herror
        exact ⟨tree, htree, hdepth, (Except.error.inj herror).symm⟩
      · rw [combine_of_le htree (Nat.not_lt.1 hdepth)] at hrefuses
        exact absurd hrefuses not_refusesDepth_combineWith
  · rintro ⟨tree, htree, hdepth, rfl⟩
    exact ⟨combine_of_lt htree hdepth, rfl⟩

/-! ## Rules that a service gives out -/

/-- A service combines texts or stored rules to a rule, or decodes it. -/
inductive GivesOut (limits : Limits) (tree : RuleTree) : Prop
  | ofTexts (word : String) (texts : List String) :
    combineTexts limits word texts = .ok tree → GivesOut limits tree
  | ofStored (catalog : Catalog) (word : String) (ids : List String) :
    combineRules limits catalog word ids = .ok tree → GivesOut limits tree
  | ofJson (value : Json) : decode limits value = .ok tree → GivesOut limits tree

/-- **No rule that a service gives out is too deep for it.** -/
theorem GivesOut.depth_le (h : GivesOut limits tree) : tree.depth ≤ limits.maxTreeDepth := by
  cases h with
  | ofTexts word texts h =>
    obtain ⟨trees, -, hcombine⟩ := Except.bind_eq_ok_iff.1 h
    exact depth_le_of_combine hcombine
  | ofStored catalog word ids h =>
    obtain ⟨rules, -, hcombine⟩ := Except.bind_eq_ok_iff.1 h
    exact depth_le_of_combine hcombine
  | ofJson value h =>
    obtain ⟨-, hdepth, -⟩ := decode_eq_ok_iff.1 h
    exact Limits.checkDepth_eq_ok_iff.1 hdepth

/-- **The depth that is told is the depth that is built**, for every list of rules and every
connective, and no condition is lost. So what a service gives out it never refuses to evaluate or
to explain for its depth, and texts that compile, or stored rules that are found, are refused for
their depth just when the rule that would be built of them is too deep. -/
theorem combined_as_told (limits : Limits) :
    (∀ trees, RuleTree.combinedDepth trees = none ↔ trees = []) ∧
    (∀ connective trees, trees ≠ [] → ∃ tree, RuleTree.combine connective trees = .ok tree ∧
      RuleTree.combinedDepth trees = some tree.depth ∧
      tree.conditions = trees.flatMap RuleTree.conditions) ∧
    (∀ tree, GivesOut limits tree → ∀ facts,
      Spared (evaluate limits tree facts) ∧ Spared (explain limits tree facts)) ∧
    (∀ word texts trees, texts.mapM (compile limits) = .ok trees → ∀ connective failure,
      RefusesDepth (combineTexts limits word texts) failure ↔
        TooDeepTogether limits connective trees failure) ∧
    ∀ catalog word ids rules, ids.mapM catalog.require = .ok rules → ∀ connective failure,
      RefusesDepth (combineRules limits catalog word ids) failure ↔
        TooDeepTogether limits connective (rules.map StoredRule.tree) failure := by
  refine ⟨fun trees => ?_, fun connective trees hne => ?_, fun tree hout facts => ?_,
    fun word texts trees htexts connective failure => ?_,
    fun catalog word ids rules hrules connective failure => ?_⟩
  · cases trees <;> simp [RuleTree.combinedDepth]
  · obtain ⟨tree, htree⟩ := RuleTree.exists_combine connective hne
    exact ⟨tree, htree, RuleTree.combinedDepth_of_combine htree,
      RuleTree.conditions_of_combine htree⟩
  · rw [evaluate_of_le hout.depth_le, explain_of_le hout.depth_le]
    exact ⟨spared_mapError_evaluation _, spared_mapError_evaluation _⟩
  · rw [combineTexts, htexts, Except.ok_bind]
    exact refusesDepth_combine_iff connective
  · rw [combineRules, hrules, Except.ok_bind]
    exact refusesDepth_combine_iff connective

/-- The limits of a service that allows trees of two levels. -/
def shallowLimits : Limits := { Limits.default with maxTreeDepth := 2 }

/-- Under a limit of two levels, two conditions are combined to a rule that is evaluated, and two
rules of two levels are refused, as texts between which there is no connective and out of the
catalog. -/
theorem combined_as_told_shallow :
    combineTexts shallowLimits "OR" ["a > 1", "a > 1"] = .ok (RuleTree.flatRule 1) ∧
    Spared (evaluate shallowLimits (RuleTree.flatRule 1) .empty) ∧
    RuleTree.combinedDepth [RuleTree.flatRule 1, RuleTree.flatRule 1] = some 3 ∧
    combineTexts shallowLimits "NOR" ["a > 1 OR a > 1", "a > 1 OR a > 1"] =
      .error (.validation (.treeTooDeep 3 2)) ∧
    combineRules shallowLimits (Catalog.empty.insert (flatStored 1)) "AND" ["flat", "flat"] =
      .error (.validation (.treeTooDeep 3 2)) := by
  obtain ⟨-, hbuilt, hspared, htexts, hstored⟩ := combined_as_told shallowLimits
  have hgiven : combineTexts shallowLimits "OR" ["a > 1", "a > 1"] = .ok (RuleTree.flatRule 1) := by
    decide +kernel
  have hcompiled : ["a > 1 OR a > 1", "a > 1 OR a > 1"].mapM (compile shallowLimits) =
      .ok [RuleTree.flatRule 1, RuleTree.flatRule 1] := by decide +kernel
  have hfound : ["flat", "flat"].mapM (Catalog.empty.insert (flatStored 1)).require =
      .ok [flatStored 1, flatStored 1] := rfl
  obtain ⟨tree, htree, htold, -⟩ :=
    hbuilt .or [RuleTree.flatRule 1, RuleTree.flatRule 1] (List.cons_ne_nil _ _)
  have hdepth : tree.depth = 3 := by
    obtain rfl := Except.ok.inj htree
    rw [List.foldl_cons, List.foldl_nil, RuleTree.depth_join, RuleTree.depth_flatRule]
    rfl
  have htogether : TooDeepTogether shallowLimits .or [RuleTree.flatRule 1, RuleTree.flatRule 1]
      (.validation (.treeTooDeep 3 2)) := by
    refine ⟨tree, htree, ?_, ?_⟩
    · rw [hdepth]
      decide
    · rw [Limits.tooDeep, hdepth]
      rfl
  exact ⟨hgiven, (hspared _ (.ofTexts _ _ hgiven) _).1, hdepth ▸ htold,
    ((htexts _ _ _ hcompiled .or _).2 htogether).1, ((hstored _ _ _ _ hfound .or _).2 htogether).1⟩

end Eligibility.Service
