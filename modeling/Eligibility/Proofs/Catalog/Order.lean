import Eligibility.Catalog
/-!
# The order of a listing

Times are totally ordered, and so are stored rules by time of creation and then by id
(`StoredRule.le_total`, `StoredRule.le_trans`). The last rule of a listing is one that no other was
created after (`Catalog.exists_getLast?_sorted`).
-/

namespace Eligibility

/-! ## Times -/

namespace Timestamp

variable {a b c : Timestamp}

theorem le_iff : a.le b = true ↔
    a.seconds < b.seconds ∨ a.seconds = b.seconds ∧ a.nanos ≤ b.nanos := by
  simp [le]

theorem le_refl (a : Timestamp) : a.le a = true := by
  simp [le_iff]

theorem le_total (a b : Timestamp) : a.le b = true ∨ b.le a = true := by
  rw [le_iff, le_iff]
  omega

theorem le_trans (h : a.le b = true) (h' : b.le c = true) : a.le c = true := by
  rw [le_iff] at *
  omega

theorem le_antisymm (h : a.le b = true) (h' : b.le a = true) : a = b := by
  obtain ⟨s, n⟩ := a
  obtain ⟨s', n'⟩ := b
  rw [le_iff] at h h'
  simp only [mk.injEq]
  simp only at h h'
  omega

end Timestamp

/-! ## Stored rules -/

namespace StoredRule

variable {a b c : StoredRule}

theorem createdAt_le (h : a.le b = true) : a.createdAt.le b.createdAt = true := by
  unfold le at h
  split at h
  · rename_i heq
    exact heq ▸ Timestamp.le_refl _
  · exact h

theorem le_total (a b : StoredRule) : a.le b = true ∨ b.le a = true := by
  by_cases h : a.createdAt = b.createdAt
  · simpa [le, h] using String.le_total a.id b.id
  · simpa [le, h, Ne.symm h] using Timestamp.le_total a.createdAt b.createdAt

theorem le_trans (h : a.le b = true) (h' : b.le c = true) : a.le c = true := by
  have hab := createdAt_le h
  have hbc := createdAt_le h'
  unfold le at *
  split at h
  · rename_i hab
    split at h'
    · rename_i hbc
      rw [if_pos (hab.trans hbc)]
      simp only [decide_eq_true_eq] at *
      exact String.le_trans h h'
    · rename_i hbc
      rwa [hab, if_neg hbc]
  · rename_i hne
    split
    · rename_i hac
      exact absurd (Timestamp.le_antisymm hab (hac ▸ hbc)) hne
    · exact Timestamp.le_trans hab hbc

end StoredRule

/-! ## Listings -/

namespace Catalog

variable {rules : List StoredRule} {rule : StoredRule}

theorem mem_sorted : rule ∈ sorted rules ↔ rule ∈ rules :=
  (List.mergeSort_perm rules StoredRule.le).mem_iff

theorem pairwise_sorted (rules : List StoredRule) :
    (sorted rules).Pairwise fun a b => a.le b = true := by
  refine List.pairwise_mergeSort (fun _ _ _ => ?_) (fun a b => ?_) rules
  · exact StoredRule.le_trans
  · exact Bool.or_eq_true_iff.2 (StoredRule.le_total a b)

/-- **The last rule of a listing** is one that no other comes after. -/
theorem exists_getLast?_sorted (h : rules ≠ []) :
    ∃ last ∈ rules, (sorted rules).getLast? = some last ∧
      ∀ rule ∈ rules, rule.createdAt.le last.createdAt = true := by
  have hne : sorted rules ≠ [] := fun hnil =>
    h (List.perm_nil.1 (hnil ▸ (List.mergeSort_perm rules StoredRule.le).symm))
  obtain ⟨last, hlast⟩ := Option.isSome_iff_exists.1 (List.getLast?_isSome.2 hne)
  obtain ⟨init, hinit⟩ := List.getLast?_eq_some_iff.1 hlast
  have hpairs := pairwise_sorted rules
  rw [hinit, List.pairwise_append] at hpairs
  refine ⟨last, mem_sorted.1 (by simp [hinit]), hlast, fun rule hrule => ?_⟩
  have hmem : rule ∈ init ++ [last] := hinit ▸ mem_sorted.2 hrule
  obtain hmem | hmem := List.mem_append.1 hmem
  · exact StoredRule.createdAt_le (hpairs.2.2 rule hmem last List.mem_cons_self)
  · obtain rfl := List.mem_singleton.1 hmem
    exact Timestamp.le_refl _

end Catalog

end Eligibility
