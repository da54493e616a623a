import Eligibility.Proofs.Outcome
import Eligibility.Catalog
/-!
# What a catalog holds

The laws of looking up after one change, and the distinctness of ids that every change keeps. Rules
with distinct ids are the ones that are found under their own ids (`Distinct.mem_iff`).
-/

namespace Eligibility.Catalog

variable {catalog rest : Catalog} {rule : StoredRule} {id : String}

theorem mem_without : rule ∈ catalog.without id ↔ rule ∈ catalog.rules ∧ rule.id ≠ id := by
  simp [without]

/-! ## Looking up -/

theorem find?_without (other : String) :
    ((catalog.without id).find? fun rule => rule.id == other) =
      if other = id then none else catalog.get? other := by
  rw [without, List.find?_filter]
  split
  · rename_i h
    simp [h]
  · rename_i h
    refine congrArg (catalog.rules.find? ·) (funext fun rule => ?_)
    by_cases hid : rule.id = other <;> simp [hid, h]

theorem id_of_get? (h : catalog.get? id = some rule) : rule.id = id := by
  have hid := List.find?_some h
  exact beq_iff_eq.1 hid

theorem require_eq_ok_iff : catalog.require id = .ok rule ↔ catalog.get? id = some rule := by
  rw [require]
  split <;> simp_all

/-- Looking up where the rule with an id has been taken out. -/
theorem get?_of_rules_eq (h : rest.rules = catalog.without id) (other : String) :
    rest.get? other = if other = id then none else catalog.get? other := by
  rw [get?, h, find?_without]

theorem get?_insert : (catalog.insert rule).get? id =
    if id = rule.id then some rule else catalog.get? id := by
  rw [get?, insert, List.find?_append, find?_without]
  split
  · rename_i h
    simp [h]
  · rename_i h
    simp [Ne.symm h]

/-- What is left when a rule is removed: the others, and as the latest the one created last if the
removed one was the latest. -/
def dropped (catalog : Catalog) (id : String) : Catalog where
  rules := catalog.without id
  latestId :=
    if catalog.latestId = some id then (sorted (catalog.without id)).getLast?.map StoredRule.id
    else catalog.latestId

theorem remove_of_get? (h : catalog.get? id = some rule) :
    catalog.remove id = .ok (rule, catalog.dropped id) := by
  simp only [remove, require, h]
  rfl

theorem remove_of_get?_eq_none (h : catalog.get? id = none) :
    catalog.remove id = .error (.ruleNotFound id) := by
  simp only [remove, require, h]
  rfl

/-! ## Distinct ids -/

/-- No two rules have one id. -/
def Distinct (catalog : Catalog) : Prop := (catalog.rules.map StoredRule.id).Nodup

theorem distinct_empty : empty.Distinct := List.nodup_nil

theorem Distinct.of_rules_eq (h : catalog.Distinct) (hrest : rest.rules = catalog.without id) :
    rest.Distinct := by
  rw [Distinct, hrest]
  exact h.sublist (List.filter_sublist.map _)

theorem Distinct.insert (h : catalog.Distinct) (rule : StoredRule) :
    (catalog.insert rule).Distinct := by
  rw [Distinct, Catalog.insert, List.map_append, List.nodup_append]
  refine ⟨h.sublist (List.filter_sublist.map _), by simp, ?_⟩
  intro id hid other hother
  obtain ⟨kept, hkept, rfl⟩ := List.mem_map.1 hid
  obtain rfl := List.mem_singleton.1 hother
  exact (mem_without.1 hkept).2

/-- **A rule is in the catalog when it is found under its id.** -/
theorem Distinct.mem_iff (h : catalog.Distinct) :
    rule ∈ catalog.rules ↔ catalog.get? rule.id = some rule := by
  refine ⟨fun hmem => ?_, List.mem_of_find?_eq_some⟩
  obtain ⟨rules, _⟩ := catalog
  simp only [Distinct, get?] at *
  induction rules with
  | nil => simp at hmem
  | cons head rules ih =>
    obtain ⟨hhead, hrules⟩ := List.nodup_cons.1 h
    obtain rfl | hmem := List.mem_cons.1 hmem
    · simp
    · have hne : head.id ≠ rule.id := fun heq => hhead (heq ▸ List.mem_map_of_mem hmem)
      simpa [hne] using ih hrules hmem

end Eligibility.Catalog
