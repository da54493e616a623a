import Eligibility.Proofs.Evaluation.Formula
import Eligibility.Proofs.RuleTree.Depth
import Eligibility.Proofs.RuleTree.Nodes
import Eligibility.Proofs.Service.Admission
/-!
# A report says of every node what its evaluation says

The report on a rule can be told without building it (`Report.Faithful`): its outcome is that of the
evaluation, its trace has one line for every node of the rule in post-order, with the outcome of the
rule that starts there, and its matched conditions are those that are true. Whenever a rule is
evaluated its report is that one, and otherwise there is none, for the same reason
(`RuleTree.explainAt_eq`); a service makes the same checks before either.
-/

namespace Eligibility

namespace RuleTree

variable {policy : MissingPolicy} {facts : Facts}

/-! ## What a report should say -/

/-- The path from the root to a node, with its steps by name. -/
def dotted (path : List Side) : String :=
  ".".intercalate ("root" :: path.map Side.name)

/-- The text of a node: its condition or its connective. -/
def label : RuleTree → String
  | condition c => c.display
  | join connective _ _ => connective.keyword

/-- The word for the outcome of a rule on some facts. -/
def verdict (policy : MissingPolicy) (facts : Facts) (tree : RuleTree) : String :=
  match tree.evaluate policy facts with
  | .ok true => "MATCHED"
  | _ => "NOT_MATCHED"

/-- The line on a node at a path. -/
def nodeLine (policy : MissingPolicy) (facts : Facts) (path : List Side) (node : RuleTree) :
    String :=
  dotted path ++ ": " ++ node.label ++ " => " ++ node.verdict policy facts

/-- The lines on the nodes of a rule that stands at a path. -/
def nodeLines (policy : MissingPolicy) (facts : Facts) (path : List Side) (tree : RuleTree) :
    List String :=
  tree.postOrder.map fun node => nodeLine policy facts (path ++ node.1) node.2

/-- The conditions of a rule that stands at a path, as far as they are true, with their paths. -/
def metConditions (policy : MissingPolicy) (facts : Facts) (path : List Side) (tree : RuleTree) :
    List String :=
  (tree.leaves.filter fun leaf => leaf.2.isMet policy facts).map fun leaf =>
    dotted (path ++ leaf.1) ++ ": " ++ leaf.2.display

theorem verdict_of_evaluate {tree : RuleTree} {value : Bool}
    (h : tree.evaluate policy facts = .ok value) :
    tree.verdict policy facts = Report.outcomeName value := by
  rw [verdict, h]
  cases value <;> rfl

theorem nodeLine_of_evaluate {node : RuleTree} {value : Bool}
    (h : node.evaluate policy facts = .ok value) (path : List Side) :
    nodeLine policy facts path node = Report.line path node.label value := by
  rw [nodeLine, verdict_of_evaluate h, Report.line, pathText_eq_intercalate, dotted]

theorem nodeLines_condition (path : List Side) (c : Condition) :
    nodeLines policy facts path (condition c) = [nodeLine policy facts path (condition c)] := by
  simp [nodeLines, postOrder]

theorem metConditions_condition (path : List Side) (c : Condition) :
    metConditions policy facts path (condition c) =
      if c.isMet policy facts then [pathText path ++ ": " ++ c.display] else [] := by
  rw [pathText_eq_intercalate]
  cases h : c.isMet policy facts <;> simp [metConditions, leaves, dotted, h]

theorem nodeLines_join (path : List Side) (connective : Connective) (left right : RuleTree) :
    nodeLines policy facts path (join connective left right) =
      nodeLines policy facts (path ++ [.left]) left ++
        nodeLines policy facts (path ++ [.right]) right ++
        [nodeLine policy facts path (join connective left right)] := by
  simp [nodeLines, postOrder, map_onSide]

theorem metConditions_join (path : List Side) (connective : Connective) (left right : RuleTree) :
    metConditions policy facts path (join connective left right) =
      metConditions policy facts (path ++ [.left]) left ++
        metConditions policy facts (path ++ [.right]) right := by
  simp [metConditions, leaves, onSide, List.filter_map, Function.comp_def]

/-! ## What it says -/

/-- **The report on a rule**, at any path: what it should say, if the rule is evaluated. -/
theorem explainAt_eq (policy : MissingPolicy) (facts : Facts) (path : List Side)
    (tree : RuleTree) :
    tree.explainAt policy facts path = do
      let matched ← tree.evaluate policy facts
      return ⟨matched, metConditions policy facts path tree, nodeLines policy facts path tree⟩ := by
  induction tree generalizing path with
  | condition c =>
    rw [explainAt, evaluate]
    cases h : c.holds policy (facts.get? c.field) with
    | error cause => rfl
    | ok value =>
      have hvalue : (condition c).evaluate policy facts = .ok value := h
      rw [Except.ok_bind, Except.ok_bind, metConditions_condition, nodeLines_condition,
        nodeLine_of_evaluate hvalue, Condition.isMet_of_outcome h]
      rfl
  | join connective left right ihl ihr =>
    rw [explainAt, ihl, ihr, evaluate]
    -- the side that fails first ends both alike; without one, the line on this node comes last
    cases hl : left.evaluate policy facts with
    | error cause => rfl
    | ok leftValue =>
      cases hr : right.evaluate policy facts with
      | error cause => rfl
      | ok rightValue =>
        have hvalue : (join connective left right).evaluate policy facts =
            .ok (connective.apply leftValue rightValue) := by
          rw [evaluate, hl, hr]
          rfl
        rw [metConditions_join, nodeLines_join, nodeLine_of_evaluate hvalue]
        rfl

theorem explain_eq (policy : MissingPolicy) (facts : Facts) (tree : RuleTree) :
    tree.explain policy facts = do
      let matched ← tree.evaluate policy facts
      return ⟨matched, metConditions policy facts [] tree, nodeLines policy facts [] tree⟩ :=
  explainAt_eq policy facts [] tree

/-- The report on a rule is the same on facts on which each of its conditions comes out alike. -/
theorem explainAt_congr {facts' : Facts} {tree : RuleTree}
    (h : ∀ c ∈ tree.conditions, c.outcome policy facts = c.outcome policy facts')
    (path : List Side) : tree.explainAt policy facts path = tree.explainAt policy facts' path := by
  induction tree generalizing path with
  | condition c =>
    have hc : c.holds policy (facts.get? c.field) = c.holds policy (facts'.get? c.field) :=
      h c List.mem_cons_self
    rw [explainAt, explainAt, hc]
  | join connective left right ihl ihr =>
    obtain ⟨hl, hr⟩ := List.forall_mem_append.1 h
    rw [explainAt, explainAt, ihl hl, ihr hr]

theorem explain_map_matched (policy : MissingPolicy) (facts : Facts) (tree : RuleTree) :
    (tree.explain policy facts).map Report.matched = tree.evaluate policy facts := by
  rw [explain_eq]
  cases tree.evaluate policy facts <;> rfl

end RuleTree

/-- A report says of the rule, of each of its nodes and of each of its conditions what the
evaluation of it says. -/
structure Report.Faithful (policy : MissingPolicy) (facts : Facts) (tree : RuleTree)
    (report : Report) : Prop where
  matched : tree.evaluate policy facts = .ok report.matched
  trace : report.trace =
    tree.postOrder.map fun node => RuleTree.nodeLine policy facts node.1 node.2
  matchedConditions : report.matchedConditions =
    (tree.leaves.filter fun leaf => leaf.2.isMet policy facts).map fun leaf =>
      RuleTree.dotted leaf.1 ++ ": " ++ leaf.2.display

theorem RuleTree.faithful_of_explain {policy : MissingPolicy} {facts : Facts} {tree : RuleTree}
    {report : Report} (h : tree.explain policy facts = .ok report) :
    report.Faithful policy facts tree := by
  rw [explain_eq, Except.bind_eq_ok_iff] at h
  obtain ⟨matched, hmatched, hreport⟩ := h
  obtain rfl := Except.ok.inj hreport
  exact ⟨hmatched, rfl, rfl⟩

/-! ## Services -/

namespace Service

variable {limits : Limits} {tree : RuleTree} {facts : Facts} {report : Report}

theorem explain_map_matched (limits : Limits) (tree : RuleTree) (facts : Facts) :
    (explain limits tree facts).map Report.matched = evaluate limits tree facts := by
  by_cases hdepth : tree.depth ≤ limits.maxTreeDepth
  · rw [explain_of_le hdepth, evaluate_of_le hdepth, ← RuleTree.explain_map_matched]
    cases tree.explain limits.missingPolicy facts <;> rfl
  · rw [explain_of_lt (Nat.lt_of_not_le hdepth), evaluate_of_lt (Nat.lt_of_not_le hdepth)]
    rfl

theorem faithful_of_explain (h : explain limits tree facts = .ok report) :
    report.Faithful limits.missingPolicy facts tree := by
  obtain ⟨-, hexplain⟩ := Except.check_bind_eq_ok_iff.1 h
  exact RuleTree.faithful_of_explain (Except.mapError_eq_ok_iff.1 hexplain)

end Service

/-- **A rule is explained as it is evaluated.** There is a report on a rule when there is a truth
value, with that value as its outcome, and otherwise the same failure, whether a service is asked or
not. The report is faithful at every node of the rule, where the nodes are those that paths lead to,
each listed once, and the conditions are in their order from left to right. -/
theorem RuleTree.explain_faithful (tree : RuleTree) (facts : Facts) :
    (∀ policy, (tree.explain policy facts).map Report.matched = tree.evaluate policy facts ∧
      ∀ report, tree.explain policy facts = .ok report → report.Faithful policy facts tree) ∧
    (∀ limits, (Service.explain limits tree facts).map Report.matched =
        Service.evaluate limits tree facts ∧
      ∀ report, Service.explain limits tree facts = .ok report →
        report.Faithful limits.missingPolicy facts tree) ∧
    (∀ path node, (path, node) ∈ tree.postOrder ↔ tree.subtree? path = some node) ∧
    (tree.postOrder.map Prod.fst).Nodup ∧
    (∀ path c, (path, c) ∈ tree.leaves ↔ tree.subtree? path = some (.condition c)) ∧
    tree.leaves.map Prod.snd = tree.conditions :=
  ⟨fun policy => ⟨explain_map_matched policy facts tree, fun _ => faithful_of_explain⟩,
    fun limits => ⟨Service.explain_map_matched limits tree facts,
      fun _ => Service.faithful_of_explain⟩,
    fun _ _ => mem_postOrder, nodup_postOrder tree, fun _ _ => mem_leaves, map_snd_leaves tree⟩

/-- The rule `(team = IT OR name = Bob) AND city = 'New York'`. -/
def officeRule : RuleTree :=
  .join .and
    (.join .or (.condition ⟨"team", .equal, .bare "IT"⟩) (.condition ⟨"name", .equal, .bare "Bob"⟩))
    (.condition ⟨"city", .equal, .quoted "New York"⟩)

/-- The facts of Bob in Sales in New York. -/
def officeFacts : Facts :=
  ⟨[("team", .text "Sales"), ("name", .text "Bob"), ("city", .text "New York")]⟩

/-- The report on Bob, by a service and without one, is faithful. -/
theorem explain_officeRule :
    let report : Report := ⟨true, ["root.left.right: name = Bob", "root.right: city = 'New York'"],
      ["root.left.left: team = IT => NOT_MATCHED", "root.left.right: name = Bob => MATCHED",
        "root.left: OR => MATCHED", "root.right: city = 'New York' => MATCHED",
        "root: AND => MATCHED"]⟩
    officeRule.explain .noMatch officeFacts = .ok report ∧
      Service.explain .default officeRule officeFacts = .ok report ∧
      report.Faithful .noMatch officeFacts officeRule := by
  intro report
  have hexplain : officeRule.explain .noMatch officeFacts = .ok report := rfl
  have hdepth : officeRule.depth ≤ Limits.default.maxTreeDepth := by
    rw [RuleTree.depth_eq_height]
    decide
  have hservice : Service.explain .default officeRule officeFacts = .ok report := by
    rw [Service.explain_of_le hdepth]
    exact congrArg (Except.mapError Failure.evaluation) hexplain
  obtain ⟨-, hfaithful, -⟩ := RuleTree.explain_faithful officeRule officeFacts
  exact ⟨hexplain, hservice, (hfaithful .default).2 report hservice⟩

end Eligibility
