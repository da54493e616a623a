import Eligibility.Proofs.Catalog.Contents
import Eligibility.Proofs.Catalog.Order
import Mathlib.Data.List.Induction
import Mathlib.Data.List.Pairwise
import Mathlib.Data.Set.Card
/-!
# Runs of changes to a catalog

Rules are inserted and removed and the catalog is cleared, in any order. After every such run the
catalog is a plain map in which the last insertion of an id wins, together with a latest rule
(`after_refines_map`):

* as long as the rule inserted last is not removed, it is the latest (`Standing`);
* once it is removed, the latest is a rule that no other was created after (`FallenBack`), and
  stays so until the next insertion.

Which rule a catalog falls back to, of several that were created last, is not part of its contract.
So the results are about all runs of a relation `Step` that leaves this open; `apply` takes one of
its steps (`step_apply`).

`Reflects` is the invariant that carries both cases through a run. Which case applies depends on the
history and not on the catalog alone, so the invariant speaks of the changes made so far.
-/

namespace Eligibility.Catalog

/-! ## Changes -/

/-- A change of a catalog. -/
inductive Change
  | insert (rule : StoredRule)
  | remove (id : String)
  | clear

/-- The catalog after one change. To remove a rule that is not there changes nothing. -/
def apply (catalog : Catalog) : Change → Catalog
  | .insert rule => catalog.insert rule
  | .remove id =>
    match catalog.remove id with
    | .ok (_, rest) => rest
    | .error _ => catalog
  | .clear => empty

/-- The catalog after some changes to the empty one. All handles to a catalog reach the same rules,
so that it does not matter through which of them a change is made. -/
def after (changes : List Change) : Catalog := changes.foldl apply empty

/-! ## Where a change may lead -/

/-- There is no rule, or the latest one is a rule that no other was created after. -/
def FallenBack (catalog : Catalog) : Prop :=
  catalog = empty ∨ ∃ rule ∈ catalog.rules, catalog.latestId = some rule.id ∧
    ∀ other ∈ catalog.rules, other.createdAt.le rule.createdAt = true

/-- `Step catalog change next`: the change may make `next` out of `catalog`. -/
inductive Step (catalog : Catalog) : Change → Catalog → Prop
  | insert (rule : StoredRule) : Step catalog (.insert rule) (catalog.insert rule)
  | missing {id : String} (hmissing : catalog.get? id = none) : Step catalog (.remove id) catalog
  | keep {id : String} (hlatest : catalog.latestId ≠ some id) :
    Step catalog (.remove id) ⟨catalog.without id, catalog.latestId⟩
  /-- The removed rule was the latest: any of the rest that were created last takes its place. -/
  | fallBack {id : String} {next : Catalog} (hlatest : catalog.latestId = some id)
    (hrules : next.rules = catalog.without id) (hback : next.FallenBack) :
    Step catalog (.remove id) next
  | clear : Step catalog .clear empty

/-- `Run changes catalog`: the changes may make `catalog` out of the empty catalog. -/
inductive Run : List Change → Catalog → Prop
  | start : Run [] empty
  | step {changes : List Change} {change : Change} {catalog next : Catalog}
    (h : Run changes catalog) (hstep : catalog.Step change next) : Run (changes ++ [change]) next

/-- The last rule of a listing is one to fall back to. -/
theorem fallenBack_dropped {catalog : Catalog} {id : String} (h : catalog.latestId = some id) :
    (catalog.dropped id).FallenBack := by
  by_cases hrest : catalog.without id = []
  · exact .inl (by simp [dropped, hrest, h, sorted, empty])
  · obtain ⟨last, hmem, hlast, hnewest⟩ := exists_getLast?_sorted hrest
    exact .inr ⟨last, hmem, by simp [dropped, h, hlast], hnewest⟩

theorem step_apply (catalog : Catalog) (change : Change) :
    catalog.Step change (catalog.apply change) := by
  cases change with
  | insert rule => exact .insert rule
  | clear => exact .clear
  | remove id =>
    cases hget : catalog.get? id with
    | none =>
      simp only [apply, remove_of_get?_eq_none hget]
      exact .missing hget
    | some rule =>
      simp only [apply, remove_of_get? hget]
      by_cases hlatest : catalog.latestId = some id
      · exact .fallBack hlatest rfl (fallenBack_dropped hlatest)
      · rw [dropped, if_neg hlatest]
        exact .keep hlatest

/-- **Every list of changes has a run**, the one that makes them one after the other. -/
theorem run_after (changes : List Change) : Run changes (after changes) := by
  induction changes using List.reverseRecOn with
  | nil => exact .start
  | append_singleton changes change ih =>
    rw [after, List.foldl_concat]
    exact ih.step (step_apply _ change)

/-! ## The plain map -/

/-- A plain map after one change. -/
def Change.onMap (map : String → Option StoredRule) : Change → String → Option StoredRule
  | .insert rule, id => if id = rule.id then some rule else map id
  | .remove removed, id => if id = removed then none else map id
  | .clear, _ => none

/-- The plain map after some changes to the empty one. -/
def mapAfter (changes : List Change) : String → Option StoredRule :=
  changes.foldl Change.onMap fun _ => none

theorem mapAfter_concat (changes : List Change) (change : Change) :
    mapAfter (changes ++ [change]) = change.onMap (mapAfter changes) :=
  List.foldl_concat ..

/-- One step does the same to a catalog and to the plain map that it agrees with. -/
theorem Step.get?_eq {catalog next : Catalog} {change : Change}
    {map : String → Option StoredRule} (h : catalog.Step change next)
    (hmap : ∀ id, catalog.get? id = map id) (id : String) :
    next.get? id = change.onMap map id := by
  cases h with
  | insert rule => rw [get?_insert, Change.onMap, hmap]
  | @missing removed hmissing =>
    rw [Change.onMap, ← hmap]
    split
    · rename_i heq
      rw [heq, hmissing]
    · rfl
  | keep _ => rw [get?_of_rules_eq rfl, Change.onMap, hmap]
  | fallBack _ hrules _ => rw [get?_of_rules_eq hrules, Change.onMap, hmap]
  | clear => rfl

theorem Step.distinct {catalog next : Catalog} {change : Change} (h : catalog.Step change next)
    (hdistinct : catalog.Distinct) : next.Distinct := by
  cases h with
  | insert rule => exact hdistinct.insert rule
  | missing _ => exact hdistinct
  | keep _ => exact hdistinct.of_rules_eq rfl
  | fallBack _ hrules _ => exact hdistinct.of_rules_eq hrules
  | clear => exact distinct_empty

/-- The rule of a plain map with an id, which must be there. -/
def requireIn (map : String → Option StoredRule) (id : String) : Except Failure StoredRule :=
  match map id with
  | some rule => .ok rule
  | none => .error (.ruleNotFound id)

/-- A catalog answers as a plain map does. -/
structure RefinesMap (catalog : Catalog) (map : String → Option StoredRule) : Prop where
  get? : ∀ id, catalog.get? id = map id
  require : ∀ id, catalog.require id = requireIn map id
  contains : ∀ id, catalog.contains id = (map id).isSome
  /-- What a removal hands back. -/
  removed : ∀ id, (catalog.remove id).map Prod.fst = requireIn map id
  size : catalog.size = {id | (map id).isSome}.ncard
  isEmpty : catalog.isEmpty = true ↔ ∀ id, map id = none

theorem exists_get?_iff {catalog : Catalog} {id : String} :
    (catalog.get? id).isSome = true ↔ ∃ rule ∈ catalog.rules, rule.id = id := by
  simp [Catalog.get?, List.find?_isSome]

/-- **Distinct ids make a catalog a map.** -/
theorem Distinct.refinesMap {catalog : Catalog} (h : catalog.Distinct) :
    catalog.RefinesMap catalog.get? where
  get? _ := rfl
  require _ := rfl
  contains _ := rfl
  removed id := by
    cases hget : catalog.get? id with
    | some rule => rw [remove_of_get? hget, requireIn, hget]; rfl
    | none => rw [remove_of_get?_eq_none hget, requireIn, hget]; rfl
  size := by
    have hids : {id | (catalog.get? id).isSome} = ↑(catalog.rules.map StoredRule.id).toFinset := by
      ext id
      simp [exists_get?_iff]
    rw [hids, Set.ncard_coe_finset, List.toFinset_card_of_nodup h, List.length_map, Catalog.size]
  isEmpty := by
    rw [Catalog.isEmpty, List.isEmpty_iff]
    constructor
    · intro hnil id
      simp [Catalog.get?, hnil]
    · intro hnone
      refine List.eq_nil_iff_forall_not_mem.2 fun rule hrule => ?_
      have hsome := exists_get?_iff.2 ⟨rule, hrule, rfl⟩
      simp [hnone] at hsome

/-! ## The latest rule -/

/-- A change neither inserts a rule nor takes away the one with an id. -/
def Change.Spares (id : String) : Change → Prop
  | .insert _ => False
  | .remove removed => removed ≠ id
  | .clear => False

/-- A rule was inserted after all others and has not been taken away since. -/
def Standing (changes : List Change) (rule : StoredRule) : Prop :=
  ∃ before later, changes = before ++ .insert rule :: later ∧
    ∀ change ∈ later, change.Spares rule.id

theorem standing_concat {changes : List Change} {change : Change} {rule : StoredRule} :
    Standing (changes ++ [change]) rule ↔
      change = .insert rule ∨ Standing changes rule ∧ change.Spares rule.id := by
  constructor
  · rintro ⟨before, later, heq, hlater⟩
    obtain rfl | ⟨init, last, rfl⟩ := List.eq_nil_or_concat later
    · exact .inl (List.append_singleton_inj.1 heq).2
    · rw [List.concat_eq_append] at heq hlater
      rw [← List.cons_append, ← List.append_assoc] at heq
      obtain ⟨rfl, rfl⟩ := List.append_singleton_inj.1 heq
      obtain ⟨hinit, hlast⟩ := List.forall_mem_append.1 hlater
      exact .inr ⟨⟨before, init, rfl, hinit⟩, hlast _ List.mem_cons_self⟩
  · rintro (rfl | ⟨⟨before, later, rfl, hlater⟩, hspares⟩)
    · exact ⟨changes, [], rfl, by simp⟩
    · refine ⟨before, later ++ [change], by simp, List.forall_mem_append.2 ⟨hlater, ?_⟩⟩
      simpa using hspares

/-- When another rule is removed, a catalog that has fallen back still has. -/
theorem FallenBack.keep {catalog : Catalog} {id : String} (h : catalog.FallenBack)
    (hlatest : catalog.latestId ≠ some id) :
    FallenBack ⟨catalog.without id, catalog.latestId⟩ := by
  obtain rfl | ⟨rule, hmem, hrule, hnewest⟩ := h
  · exact .inl rfl
  · have hid : rule.id ≠ id := fun heq => hlatest (heq ▸ hrule)
    refine .inr ⟨rule, mem_without.2 ⟨hmem, hid⟩, hrule, fun other hother => ?_⟩
    exact hnewest other (mem_without.1 hother).1

/-- What a run of changes leaves behind: the plain map, and a latest rule that is the one inserted
last or else one to fall back to. -/
structure Reflects (changes : List Change) (catalog : Catalog) : Prop where
  get?_eq : ∀ id, catalog.get? id = mapAfter changes id
  distinct : catalog.Distinct
  standing : ∀ rule, Standing changes rule → rule ∈ catalog.rules ∧ catalog.latestId = some rule.id
  fallenBack : (∀ rule, ¬ Standing changes rule) → catalog.FallenBack

theorem reflects_empty : Reflects [] empty where
  get?_eq _ := rfl
  distinct := distinct_empty
  standing := by
    rintro rule ⟨before, later, heq, -⟩
    simp at heq
  fallenBack _ := .inl rfl

/-- **Every step keeps what the run so far has left behind.** -/
theorem Reflects.step {changes : List Change} {change : Change} {catalog next : Catalog}
    (h : Reflects changes catalog) (hstep : catalog.Step change next) :
    Reflects (changes ++ [change]) next where
  get?_eq id := by rw [mapAfter_concat, hstep.get?_eq h.get?_eq]
  distinct := hstep.distinct h.distinct
  standing rule hstanding := by
    obtain rfl | ⟨hbefore, hspares⟩ := standing_concat.1 hstanding
    · cases hstep with
      | insert => exact ⟨by simp [Catalog.insert], rfl⟩
    · obtain ⟨hmem, hrule⟩ := h.standing rule hbefore
      cases hstep with
      | insert | clear => exact hspares.elim
      | missing _ => exact ⟨hmem, hrule⟩
      | keep _ => exact ⟨mem_without.2 ⟨hmem, Ne.symm hspares⟩, hrule⟩
      | fallBack hlatest _ _ =>
        exact absurd (Option.some.inj (hlatest.symm.trans hrule)) hspares
  fallenBack hnone := by
    simp only [standing_concat, not_or, not_and] at hnone
    -- if a rule stood before a removal, it is the one removed
    have hremoved : ∀ {id}, change = .remove id → ∀ rule, Standing changes rule → rule.id = id := by
      rintro id rfl rule hstanding
      exact not_not.1 fun hne => (hnone rule).2 hstanding (Ne.symm hne)
    cases hstep with
    | insert rule => exact absurd rfl (hnone rule).1
    | clear => exact .inl rfl
    | fallBack _ _ hback => exact hback
    | keep hlatest =>
      refine (h.fallenBack fun rule hstanding => hlatest ?_).keep hlatest
      exact hremoved rfl rule hstanding ▸ (h.standing rule hstanding).2
    | missing hmissing =>
      refine h.fallenBack fun rule hstanding => ?_
      have hfound := h.distinct.mem_iff.1 (h.standing rule hstanding).1
      rw [hremoved rfl rule hstanding, hmissing] at hfound
      simp at hfound

theorem Run.reflects {changes : List Change} {catalog : Catalog} (h : Run changes catalog) :
    Reflects changes catalog := by
  induction h with
  | start => exact reflects_empty
  | step _ hstep ih => exact ih.step hstep

/-! ## Runs in the order of time -/

/-- The rule that a change inserts. -/
def Change.inserted? : Change → Option StoredRule
  | .insert rule => some rule
  | .remove _ | .clear => none

/-- The rules that some changes insert. -/
def insertions (changes : List Change) : List StoredRule := changes.filterMap Change.inserted?

/-- Every rule is created after those inserted before it. -/
def Increasing (changes : List Change) : Prop :=
  (insertions changes).Pairwise fun earlier later => later.createdAt.le earlier.createdAt = false

theorem Run.mem_insertions {changes : List Change} {catalog : Catalog} (h : Run changes catalog)
    {rule : StoredRule} (hrule : rule ∈ catalog.rules) : rule ∈ insertions changes := by
  induction h with
  | start => simp [empty] at hrule
  | step _ hstep ih =>
    rw [insertions, List.filterMap_append, List.mem_append]
    cases hstep with
    | insert other =>
      obtain hrule | hrule := List.mem_append.1 hrule
      · exact .inl (ih (mem_without.1 hrule).1)
      · exact .inr hrule
    | missing _ => exact .inl (ih hrule)
    | keep _ => exact .inl (ih (mem_without.1 hrule).1)
    | fallBack _ hrules _ => exact .inl (ih (mem_without.1 (hrules ▸ hrule)).1)
    | clear => simp [empty] at hrule

/-- The rule inserted last was created after all others. -/
theorem Standing.createdAt_le {changes : List Change} {rule other : StoredRule}
    (h : Standing changes rule) (hincreasing : Increasing changes)
    (hother : other ∈ insertions changes) : other.createdAt.le rule.createdAt = true := by
  obtain ⟨before, later, rfl, hlater⟩ := h
  have hnone : later.filterMap Change.inserted? = [] := by
    refine List.filterMap_eq_nil_iff.2 fun change hchange => ?_
    cases change with
    | insert _ => exact (hlater _ hchange).elim
    | remove _ | clear => rfl
  have hsplit : insertions (before ++ .insert rule :: later) = insertions before ++ [rule] := by
    simp [insertions, Change.inserted?, hnone]
  rw [Increasing, hsplit, List.pairwise_append] at hincreasing
  rw [hsplit] at hother
  obtain hother | hother := List.mem_append.1 hother
  · have hlt := hincreasing.2.2 other hother rule List.mem_cons_self
    exact (Timestamp.le_total _ _).resolve_right (by simp [hlt])
  · obtain rfl := List.mem_singleton.1 hother
    exact Timestamp.le_refl _

/-- Rules that were created at one time are one rule. -/
theorem Increasing.eq_of_createdAt_eq {changes : List Change} {rule other : StoredRule}
    (h : Increasing changes) (hrule : rule ∈ insertions changes)
    (hother : other ∈ insertions changes) (heq : rule.createdAt = other.createdAt) :
    rule = other := by
  have hpairs : (insertions changes).Pairwise fun a b => a.createdAt ≠ b.createdAt := by
    refine h.imp fun hlt heq => ?_
    simp [heq, Timestamp.le_refl] at hlt
  have hsymm : Std.Symm fun a b : StoredRule => a.createdAt ≠ b.createdAt :=
    ⟨fun _ _ => Ne.symm⟩
  exact not_not.1 fun hne => hpairs.forall hrule hother hne heq

/-! ## What a run leaves behind -/

theorem Distinct.latest?_eq {catalog : Catalog} {rule : StoredRule} (h : catalog.Distinct)
    (hmem : rule ∈ catalog.rules) (hlatest : catalog.latestId = some rule.id) :
    catalog.latest? = some rule := by
  rw [latest?, hlatest, Option.bind_some, h.mem_iff.1 hmem]

theorem latest?_eq_none {catalog : Catalog} (h : catalog.rules = []) : catalog.latest? = none := by
  simp [latest?, get?, h]

/-- Where there are rules, one of them is the latest: the standing one, or one that no other was
created after. -/
theorem Reflects.exists_latest? {changes : List Change} {catalog : Catalog}
    (h : Reflects changes catalog) (hne : catalog.rules ≠ []) :
    ∃ rule ∈ catalog.rules, catalog.latest? = some rule ∧ (Standing changes rule ∨
      ∀ other ∈ catalog.rules, other.createdAt.le rule.createdAt = true) := by
  by_cases hstanding : ∃ rule, Standing changes rule
  · obtain ⟨rule, hrule⟩ := hstanding
    obtain ⟨hmem, hlatest⟩ := h.standing rule hrule
    exact ⟨rule, hmem, h.distinct.latest?_eq hmem hlatest, .inl hrule⟩
  · obtain rfl | ⟨rule, hmem, hlatest, hnewest⟩ := h.fallenBack (not_exists.1 hstanding)
    · exact absurd rfl hne
    · exact ⟨rule, hmem, h.distinct.latest?_eq hmem hlatest, .inr hnewest⟩

/-- If rules are created in the order of their insertion, the latest is the last of a listing. -/
theorem Run.latest?_eq_getLast?_list {changes : List Change} {catalog : Catalog}
    (h : Run changes catalog) (hincreasing : Increasing changes) :
    catalog.latest? = catalog.list.getLast? := by
  by_cases hne : catalog.rules = []
  · simp [latest?_eq_none hne, list, sorted, hne]
  · obtain ⟨rule, hmem, hlatest, hcase⟩ := h.reflects.exists_latest? hne
    obtain ⟨last, hlastMem, hlast, hnewest⟩ := exists_getLast?_sorted hne
    have hrule := h.mem_insertions hmem
    have hother := h.mem_insertions hlastMem
    have hle : last.createdAt.le rule.createdAt = true :=
      hcase.elim (fun hstanding => hstanding.createdAt_le hincreasing hother)
        (fun hall => hall last hlastMem)
    have heq := Timestamp.le_antisymm (hnewest rule hmem) hle
    rw [hlatest, list, hlast, hincreasing.eq_of_createdAt_eq hrule hother heq]

/-- **After every run of changes** the catalog is the plain map of the last insertions. There is a
latest rule if there is any rule; it is the one inserted last if that one has not been taken away
since, and otherwise one that no other was created after. If rules are created in the order of
their insertion, the latest is always the last of a listing. One run is that of `after`. -/
theorem after_refines_map (changes : List Change) :
    Run changes (after changes) ∧ ∀ catalog, Run changes catalog →
      catalog.RefinesMap (mapAfter changes) ∧
      (catalog.latest? = none ↔ ∀ id, mapAfter changes id = none) ∧
      (∀ rule, Standing changes rule →
        catalog.latest? = some rule ∧ mapAfter changes rule.id = some rule) ∧
      ((∀ rule, ¬ Standing changes rule) → (∃ id, mapAfter changes id ≠ none) →
        ∃ latest, catalog.latest? = some latest ∧ mapAfter changes latest.id = some latest ∧
          ∀ id stored, mapAfter changes id = some stored →
            stored.createdAt.le latest.createdAt = true) ∧
      (Increasing changes → catalog.latest? = catalog.list.getLast?) := by
  refine ⟨run_after changes, fun catalog hrun => ?_⟩
  have hreflects := hrun.reflects
  have hmap : catalog.get? = mapAfter changes := funext hreflects.get?_eq
  have hmem : ∀ {id rule}, mapAfter changes id = some rule → rule ∈ catalog.rules :=
    fun hget => List.mem_of_find?_eq_some (hmap ▸ hget)
  have hfound : ∀ {rule}, rule ∈ catalog.rules → mapAfter changes rule.id = some rule :=
    fun hrule => hmap ▸ hreflects.distinct.mem_iff.1 hrule
  have hrefines := hmap ▸ hreflects.distinct.refinesMap
  refine ⟨hrefines, ⟨fun hnone => ?_, fun hnone => ?_⟩, fun rule hstanding => ?_,
    fun hnone ⟨id, hid⟩ => ?_, hrun.latest?_eq_getLast?_list⟩
  · refine hrefines.isEmpty.1 (List.isEmpty_iff.2 (not_not.1 fun hne => ?_))
    obtain ⟨rule, -, hlatest, -⟩ := hreflects.exists_latest? hne
    simp [hlatest] at hnone
  · exact latest?_eq_none (List.isEmpty_iff.1 (hrefines.isEmpty.2 hnone))
  · obtain ⟨hrule, hlatest⟩ := hreflects.standing rule hstanding
    exact ⟨hreflects.distinct.latest?_eq hrule hlatest, hfound hrule⟩
  · obtain ⟨stored, hstored⟩ := Option.ne_none_iff_exists'.1 hid
    obtain ⟨latest, hlatestMem, hlatest, hcase⟩ :=
      hreflects.exists_latest? (List.ne_nil_of_mem (hmem hstored))
    exact ⟨latest, hlatest, hfound hlatestMem, fun _ other hother =>
      hcase.resolve_left (hnone latest) other (hmem hother)⟩

/-- The rule `x = ''` stored under an id at a time. -/
def stamped (id : String) (seconds : Int) : StoredRule :=
  ⟨id, "x = ''", .condition ⟨"x", .equal, .quoted ""⟩, ⟨seconds, 0⟩⟩

/-- Three insertions that are not in the order of creation, and the removal of the last one. -/
def outOfOrderRun : List Change :=
  [.insert (stamped "a" 2), .insert (stamped "b" 3)] ++ [.insert (stamped "c" 1)] ++ [.remove "c"]

theorem not_standing_outOfOrderRun (rule : StoredRule) : ¬ Standing outOfOrderRun rule := by
  rw [outOfOrderRun, standing_concat, standing_concat]
  rintro (heq | ⟨heq | ⟨-, hinsert⟩, hspares⟩)
  · simp at heq
  · obtain rfl := Change.insert.inj heq
    exact hspares rfl
  · exact hinsert

/-- Before the removal the latest rule is `c`, although it was created first; afterwards it is one
that no other was created after. -/
theorem after_outOfOrderRun :
    Standing (outOfOrderRun.take 3) (stamped "c" 1) ∧
      (after (outOfOrderRun.take 3)).latest? = some (stamped "c" 1) ∧
      (∀ rule, ¬ Standing outOfOrderRun rule) ∧ mapAfter outOfOrderRun "a" ≠ none ∧
      ∃ latest, (after outOfOrderRun).latest? = some latest ∧
        (stamped "b" 3).createdAt.le latest.createdAt = true := by
  have hlast : Standing (outOfOrderRun.take 3) (stamped "c" 1) :=
    ⟨[.insert (stamped "a" 2), .insert (stamped "b" 3)], [], rfl, by simp⟩
  have hleft : mapAfter outOfOrderRun "a" ≠ none := by decide
  obtain ⟨hrunTake, hallTake⟩ := after_refines_map (outOfOrderRun.take 3)
  obtain ⟨hrun, hall⟩ := after_refines_map outOfOrderRun
  obtain ⟨-, -, hstanding, -⟩ := hallTake _ hrunTake
  obtain ⟨-, -, -, hback, -⟩ := hall _ hrun
  obtain ⟨latest, hlatest, -, hnewest⟩ := hback not_standing_outOfOrderRun ⟨"a", hleft⟩
  exact ⟨hlast, (hstanding _ hlast).1, not_standing_outOfOrderRun, hleft, latest, hlatest,
    hnewest "b" (stamped "b" 3) (by decide)⟩

end Eligibility.Catalog
