import Eligibility.RuleTree.Basic
/-!
# The fields of a tree are those of its conditions

Each field of a condition is among them (`mem_fields`), and they increase from one to the next
(`pairwise_fields`).
-/

namespace Eligibility.RuleTree

theorem mem_insertField {field other : String} {fields : List String} :
    other ∈ insertField field fields ↔ other = field ∨ other ∈ fields := by
  induction fields with
  | nil => simp [insertField]
  | cons head rest ih =>
    rw [insertField]
    split
    · simp
    · split
      · simp_all
      · simp [ih, or_left_comm]

theorem mem_fields {tree : RuleTree} {field : String} :
    field ∈ tree.fields ↔ ∃ c ∈ tree.conditions, c.field = field := by
  have hfold : ∀ (conditions : List Condition) (fields : List String),
      field ∈ conditions.foldl (fun fields c => insertField c.field fields) fields ↔
        field ∈ fields ∨ ∃ c ∈ conditions, c.field = field := by
    intro conditions
    induction conditions with
    | nil => simp
    | cons c conditions ih =>
      intro fields
      simp [ih, mem_insertField, or_assoc, or_left_comm, eq_comm]
  simpa [fields] using hfold tree.conditions []

theorem pairwise_insertField {field : String} {fields : List String}
    (h : fields.Pairwise (· < ·)) : (insertField field fields).Pairwise (· < ·) := by
  induction fields with
  | nil => exact List.pairwise_singleton _ _
  | cons head rest ih =>
    obtain ⟨hhead, hrest⟩ := List.pairwise_cons.1 h
    rw [insertField]
    split
    · rename_i hlt
      refine List.pairwise_cons.2 ⟨List.forall_mem_cons.2 ⟨hlt, fun other hother => ?_⟩, h⟩
      exact String.lt_trans hlt (hhead other hother)
    · split
      · exact h
      · rename_i hnlt hne
        have hlt : head < field := Std.lt_of_le_of_ne (String.not_lt.1 hnlt) (Ne.symm hne)
        refine List.pairwise_cons.2 ⟨fun other hother => ?_, ih hrest⟩
        obtain rfl | hother := mem_insertField.1 hother
        · exact hlt
        · exact hhead other hother

theorem pairwise_fields (tree : RuleTree) : tree.fields.Pairwise (· < ·) :=
  List.foldlRecOn _ _ .nil fun _ h _ _ => pairwise_insertField h

end Eligibility.RuleTree
