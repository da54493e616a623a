import Eligibility.Proofs.Catalog.Contents
import Eligibility.Proofs.Service.FlatRule
/-!
# Which compiled rules a service can use

A rule that a service has compiled from a text can be used by that service, to be decoded from its
own encoding and to be evaluated, directly or out of the catalog, exactly if its tree is within the
limit of depth (`usable_iff_depth_le`). The limits on texts do not see to that: a chain of
conditions without any parentheses is one level deeper for every condition (`flatRule`), and a text
of 2309 bytes is compiled and stored under the default limits and then refused whenever it is to be
used (`not_usable_flatRule`).
-/

namespace Eligibility

/-- Whether a rule is refused because it is too deep. -/
def Failure.isTooDeep : Failure → Bool
  | .validation (.treeTooDeep _ _) => true
  | _ => false

namespace Service

variable {limits : Limits} {text : String} {tree : RuleTree}

/-! ## Using a compiled rule -/

/-- An outcome is no refusal of a rule that is too deep. -/
def Spared {α : Type} (outcome : Except Failure α) : Prop :=
  ∀ failure, outcome = .error failure → failure.isTooDeep = false

/-- `Usable limits text tree`: the service can use the rule `tree` that it has read from `text`. It
decodes the rule from its encoding, and never finds it too deep to be evaluated or explained, nor to
be evaluated out of a catalog in which it has stored the text. -/
structure Usable (limits : Limits) (text : String) (tree : RuleTree) : Prop where
  decoded : decode limits tree.toJson = .ok tree
  evaluated : ∀ facts, Spared (evaluate limits tree facts)
  explained : ∀ facts, Spared (explain limits tree facts)
  stored : ∀ catalog id now rule after, createRule limits catalog id now text = .ok (rule, after) →
    ∀ facts, Spared (evaluateRule limits after id facts)

theorem spared_mapError_evaluation {α : Type} (outcome : Except EvaluationError α) :
    Spared (outcome.mapError .evaluation) := by
  intro failure h
  cases outcome with
  | ok value => simp at h
  | error cause =>
    obtain rfl := Except.error.inj h
    rfl

theorem not_spared_tooDeep {α : Type} (limits : Limits) (tree : RuleTree) :
    ¬ Spared (.error (limits.tooDeep tree) : Except Failure α) :=
  fun h => Bool.noConfusion (h _ rfl)

theorem createRule_of_compile (catalog : Catalog) (id : String) (now : Timestamp)
    (h : compile limits text = .ok tree) : createRule limits catalog id now text =
      .ok (⟨id, text, tree, now⟩, catalog.insert ⟨id, text, tree, now⟩) := by
  simp only [createRule, h, Except.ok_bind, Except.pure_eq_ok]

/-- A stored rule is evaluated as the rule that its text was compiled to. -/
theorem evaluateRule_of_createRule {catalog after : Catalog} {id : String} {now : Timestamp}
    {rule : StoredRule} (h : compile limits text = .ok tree)
    (hcreate : createRule limits catalog id now text = .ok (rule, after)) (facts : Facts) :
    evaluateRule limits after id facts = evaluate limits tree facts := by
  rw [createRule_of_compile catalog id now h] at hcreate
  obtain ⟨-, rfl⟩ := Prod.mk.inj (Except.ok.inj hcreate)
  simp [evaluateRule, Catalog.require, Catalog.get?_insert]

theorem usable_of_depth_le (h : compile limits text = .ok tree)
    (hdepth : tree.depth ≤ limits.maxTreeDepth) : Usable limits text tree where
  decoded := decode_toJson_of_le (admits_of_compile h) hdepth
  evaluated facts := evaluate_of_le hdepth facts ▸ spared_mapError_evaluation _
  explained facts := explain_of_le hdepth facts ▸ spared_mapError_evaluation _
  stored _ _ _ _ _ hcreate facts := by
    rw [evaluateRule_of_createRule h hcreate, evaluate_of_le hdepth]
    exact spared_mapError_evaluation _

theorem Usable.depth_le (h : Usable limits text tree) : tree.depth ≤ limits.maxTreeDepth := by
  refine Nat.le_of_not_lt fun hdepth => ?_
  have hspared := h.evaluated .empty
  rw [evaluate_of_lt hdepth] at hspared
  exact not_spared_tooDeep limits tree hspared

/-- **A compiled rule can be used if it is within the limit of depth**, and then only: a deeper one
is refused whenever it is decoded, evaluated or explained, also out of the catalog. -/
theorem usable_iff_depth_le (limits : Limits) (text : String) (tree : RuleTree)
    (h : compile limits text = .ok tree) :
    (Usable limits text tree ↔ tree.depth ≤ limits.maxTreeDepth) ∧
      (limits.maxTreeDepth < tree.depth →
        decode limits tree.toJson = .error (limits.tooDeep tree) ∧
        ∀ facts, evaluate limits tree facts = .error (limits.tooDeep tree) ∧
          explain limits tree facts = .error (limits.tooDeep tree) ∧
          ∀ catalog id now rule after,
            createRule limits catalog id now text = .ok (rule, after) →
              evaluateRule limits after id facts = .error (limits.tooDeep tree)) := by
  refine ⟨⟨Usable.depth_le, usable_of_depth_le h⟩, fun hdepth => ⟨?_, fun facts => ⟨?_, ?_, ?_⟩⟩⟩
  · exact decode_toJson_of_lt (admits_of_compile h) hdepth
  · exact evaluate_of_lt hdepth facts
  · exact explain_of_lt hdepth facts
  · intro catalog id now rule after hcreate
    rw [evaluateRule_of_createRule h hcreate, evaluate_of_lt hdepth]

/-- With 256 conditions a flat rule can be used under the default limits. -/
theorem usable_flatRule :
    compile .default (RuleTree.flatRule 255).display = .ok (RuleTree.flatRule 255) ∧
      Usable .default (RuleTree.flatRule 255).display (RuleTree.flatRule 255) := by
  have hcompile := compile_flatRule .default 255 (by decide) rfl
  refine ⟨hcompile, (usable_iff_depth_le _ _ _ hcompile).1.2 ?_⟩
  rw [RuleTree.depth_flatRule]
  decide

/-- **Not every compiled rule can be used**: with 257 conditions a flat rule is compiled and stored
under the default limits, and then neither decoded from its encoding nor evaluated on any facts. -/
theorem not_usable_flatRule :
    compile .default (RuleTree.flatRule 256).display = .ok (RuleTree.flatRule 256) ∧
      ¬ Usable .default (RuleTree.flatRule 256).display (RuleTree.flatRule 256) ∧
      decode .default (RuleTree.flatRule 256).toJson =
        .error (.validation (.treeTooDeep 257 256)) ∧
      (∀ facts, evaluate .default (RuleTree.flatRule 256) facts =
        .error (.validation (.treeTooDeep 257 256))) ∧
      ∀ id now, ∃ rule after,
        createRule .default .empty id now (RuleTree.flatRule 256).display = .ok (rule, after) ∧
          ∀ facts, evaluateRule .default after id facts =
            .error (.validation (.treeTooDeep 257 256)) := by
  have hcompile := compile_flatRule .default 256 (by decide) rfl
  have hdepth : Limits.default.maxTreeDepth < (RuleTree.flatRule 256).depth := by
    rw [RuleTree.depth_flatRule]
    decide
  have hfailure : Limits.default.tooDeep (RuleTree.flatRule 256) =
      .validation (.treeTooDeep 257 256) := by
    rw [Limits.tooDeep, RuleTree.depth_flatRule]
    rfl
  have hevaluate (facts : Facts) : evaluate .default (RuleTree.flatRule 256) facts =
      .error (.validation (.treeTooDeep 257 256)) := hfailure ▸ evaluate_of_lt hdepth facts
  refine ⟨hcompile, fun h => Nat.not_le.2 hdepth h.depth_le, ?_, hevaluate, fun id now => ?_⟩
  · exact hfailure ▸ decode_toJson_of_lt (admits_of_compile hcompile) hdepth
  · have hcreate := createRule_of_compile .empty id now hcompile
    exact ⟨_, _, hcreate, fun facts =>
      (evaluateRule_of_createRule hcompile hcreate facts).trans (hevaluate facts)⟩

end Service

end Eligibility
