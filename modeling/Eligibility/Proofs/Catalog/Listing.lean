import Eligibility.Proofs.Catalog.Run
import Mathlib.Data.List.Sort
/-!
# Listings are canonical

A listing of a plain map has each of its rules, and they increase: in the time of creation and, at
one time, in the id (`Catalog.Lists`). A map has only one such list (`Catalog.Lists.unique`). After
every run of changes `Catalog.list` is that of the map of the last insertions, so that it depends on
neither the changes that led to these rules nor the order in which the catalog holds them
(`Catalog.list_canonical`).

Rules are sorted by an order under which two of them may be equal. They are not if their ids differ,
and the ids in a catalog do, also where an id is used again.
-/

namespace Eligibility

/-! ## The strict order -/

/-- A time is earlier than another. -/
def Timestamp.Before (a b : Timestamp) : Prop :=
  a.seconds < b.seconds ∨ a.seconds = b.seconds ∧ a.nanos < b.nanos

theorem Timestamp.before_of_le {a b : Timestamp} (h : a.le b = true) (hne : a ≠ b) :
    a.Before b := by
  obtain ⟨s, n⟩ := a
  obtain ⟨s', n'⟩ := b
  rw [le_iff] at h
  simp only [ne_eq, mk.injEq] at hne
  simp only [Before] at *
  omega

theorem Timestamp.Before.asymm {a b : Timestamp} (h : a.Before b) : ¬ b.Before a := by
  simp only [Before] at *
  omega

namespace StoredRule

variable {a b : StoredRule}

/-- A rule was created earlier than another, or at the same time under a smaller id. -/
def Before (a b : StoredRule) : Prop :=
  a.createdAt.Before b.createdAt ∨ a.createdAt = b.createdAt ∧ a.id < b.id

theorem before_of_le (h : a.le b = true) (hne : a.id ≠ b.id) : a.Before b := by
  unfold le at h
  split at h
  · rename_i htime
    exact .inr ⟨htime, Std.lt_of_le_of_ne (of_decide_eq_true h) hne⟩
  · rename_i htime
    exact .inl (Timestamp.before_of_le h htime)

theorem Before.asymm (h : a.Before b) : ¬ b.Before a := by
  rintro (hlater | ⟨htime, hid⟩)
  · obtain hearlier | ⟨htime, -⟩ := h
    · exact hearlier.asymm hlater
    · exact (htime ▸ hlater).asymm (htime ▸ hlater)
  · obtain hearlier | ⟨-, hid'⟩ := h
    · exact (htime ▸ hearlier).asymm (htime ▸ hearlier)
    · exact String.lt_asymm hid hid'

instance : Std.Irrefl Before := ⟨fun _ h => h.asymm h⟩

instance : Std.Antisymm Before := ⟨fun _ _ h h' => absurd h' h.asymm⟩

end StoredRule

namespace Catalog

/-! ## Listings -/

/-- `Lists stored rules`: the list has the rules of a plain map, in increasing order. -/
structure Lists (stored : String → Option StoredRule) (rules : List StoredRule) : Prop where
  mem_iff : ∀ rule, rule ∈ rules ↔ stored rule.id = some rule
  increasing : rules.Pairwise StoredRule.Before

namespace Lists

variable {stored : String → Option StoredRule} {rules other : List StoredRule}

/-- No rule is listed twice. -/
theorem nodup (h : Lists stored rules) : rules.Nodup :=
  h.increasing.nodup

/-- **A map has one listing.** -/
theorem unique (h : Lists stored rules) (h' : Lists stored other) : rules = other :=
  h.increasing.eq_of_mem_iff h'.increasing fun rule =>
    (h.mem_iff rule).trans (h'.mem_iff rule).symm

end Lists

variable {catalog shuffled : Catalog} {changes : List Change}

theorem list_perm (catalog : Catalog) : catalog.list.Perm catalog.rules :=
  List.mergeSort_perm ..

/-- **Rules with distinct ids are listed**, in whatever order they are taken. -/
theorem Distinct.lists_sorted (h : catalog.Distinct) {rules : List StoredRule}
    (hperm : rules.Perm catalog.rules) : Lists catalog.get? (sorted rules) where
  mem_iff rule := by rw [mem_sorted, hperm.mem_iff, h.mem_iff]
  increasing := by
    have hsorted : (sorted rules).Perm catalog.rules :=
      (List.mergeSort_perm rules StoredRule.le).trans hperm
    have hids : (sorted rules).Pairwise fun a b => a.id ≠ b.id :=
      List.pairwise_map.1 ((hsorted.map StoredRule.id).nodup_iff.2 h)
    exact (pairwise_sorted rules).imp₂ (fun _ _ => StoredRule.before_of_le) hids

/-- **A run ends in a catalog with the listing of the plain map**, in whatever order that catalog
holds the rules. -/
theorem Run.lists (h : Run changes catalog) (hperm : shuffled.rules.Perm catalog.rules) :
    Lists (mapAfter changes) shuffled.list :=
  (funext h.reflects.get?_eq : catalog.get? = mapAfter changes) ▸
    h.reflects.distinct.lists_sorted hperm

/-! ## Statistics -/

theorem conditions_statistics (catalog : Catalog) :
    catalog.statistics.conditions =
      (catalog.rules.map fun rule => rule.tree.conditionCount).sum := by
  rw [List.sum_eq_foldl, List.foldl_map, statistics]

theorem statistics_eq_of_perm (h : shuffled.rules.Perm catalog.rules) :
    shuffled.statistics = catalog.statistics := by
  rw [Statistics.mk.injEq, conditions_statistics, conditions_statistics]
  exact ⟨h.length_eq, (h.map _).sum_eq⟩

/-! ## Runs -/

/-- **A listing is canonical.** After every run of changes it has each rule of the plain map once,
and the rules increase. It does not depend on the order in which the catalog holds them, and two
runs end in the same listing exactly if they end in the same rules. The statistics count the rules
and the conditions that are listed. -/
theorem list_canonical (changes : List Change) :
    Run changes (after changes) ∧ ∀ catalog, Run changes catalog →
      Lists (mapAfter changes) catalog.list ∧ catalog.list.Nodup ∧
      (∀ shuffled : Catalog, shuffled.rules.Perm catalog.rules →
        shuffled.list = catalog.list ∧ shuffled.statistics = catalog.statistics) ∧
      (∀ changes' catalog', Run changes' catalog' →
        (catalog'.list = catalog.list ↔ ∀ rule, rule ∈ catalog'.rules ↔ rule ∈ catalog.rules)) ∧
      catalog.list.length = catalog.size ∧
      catalog.statistics.rules = catalog.list.length ∧
      catalog.statistics.conditions =
        (catalog.list.map fun rule => rule.tree.conditionCount).sum := by
  refine ⟨run_after changes, fun catalog hrun => ?_⟩
  have hlists := hrun.lists (.refl _)
  have hlength := catalog.list_perm.length_eq
  refine ⟨hlists, hlists.nodup, fun shuffled hperm => ?_, fun changes' catalog' hrun' => ?_,
    hlength, hlength.symm, ?_⟩
  · exact ⟨(hrun.lists hperm).unique hlists, statistics_eq_of_perm hperm⟩
  · constructor
    · intro hlist rule
      have hmem : rule ∈ catalog'.list ↔ rule ∈ catalog.list := by rw [hlist]
      exact mem_sorted.symm.trans (hmem.trans mem_sorted)
    · intro hsame
      have hlists' := hrun'.lists (.refl _)
      exact hlists'.increasing.eq_of_mem_iff hlists.increasing fun rule =>
        mem_sorted.trans ((hsame rule).trans mem_sorted.symm)
  · rw [conditions_statistics]
    exact (catalog.list_perm.map _).sum_eq.symm

/-- Two rules of one time are inserted, the one with the smaller id first. -/
def tiedRun : List Change := [.insert (stamped "a" 2), .insert (stamped "b" 2)]

/-- The same two rules are left of five changes, which use an id again. -/
def overwritingRun : List Change :=
  [.insert (stamped "a" 5), .insert (stamped "c" 1), .insert (stamped "b" 2), .remove "c",
    .insert (stamped "a" 2)]

/-- The runs end in different catalogs with one listing, in which the id decides. -/
theorem list_overwritingRun :
    (after overwritingRun).rules ≠ (after tiedRun).rules ∧
      (after overwritingRun).list = (after tiedRun).list ∧
      (after overwritingRun).list.Pairwise StoredRule.Before ∧
      stamped "a" 2 ∈ (after overwritingRun).list ∧
      (after overwritingRun).statistics = ⟨2, 2⟩ := by
  obtain ⟨hrun, hall⟩ := list_canonical tiedRun
  obtain ⟨hrun', hall'⟩ := list_canonical overwritingRun
  obtain ⟨-, -, -, hsame, -⟩ := hall _ hrun
  obtain ⟨hlists, -, hshuffled, -⟩ := hall' _ hrun'
  have hrules : (after overwritingRun).rules = [stamped "b" 2, stamped "a" 2] := by decide +kernel
  have hrulesTied : (after tiedRun).rules = [stamped "a" 2, stamped "b" 2] := by decide +kernel
  have hperm : (after tiedRun).rules.Perm (after overwritingRun).rules := by
    rw [hrules, hrulesTied]
    exact .swap ..
  refine ⟨by decide +kernel, (hsame _ _ hrun').2 fun _ => hperm.symm.mem_iff, hlists.increasing,
    (hlists.mem_iff _).2 (by decide +kernel), ?_⟩
  rw [← (hshuffled _ hperm).2]
  decide +kernel

end Catalog

end Eligibility
