import Eligibility.Proofs.Service.Access
import Eligibility.Proofs.Service.FlatRule
/-!
# What requests leave as it is

Four kinds of requests change a catalog: to create a rule and to remove one, if they succeed, to
insert a rule, and to clear the catalog. All others, and those that fail, leave the rules and the
note of the latest one as they were, although a request is served in several steps and may fail
between them (`serve_frame`). A rule that is created under a new id is added to the others, and one
that is removed is taken away from them; either way `OneMore` compares the two catalogs.
-/

namespace Eligibility

namespace Catalog

variable {catalog next : Catalog} {rule : StoredRule} {id : String}

/-! ## One rule more -/

/-- `catalog.OneMore rule next`: one catalog has the rules of the other and this one besides. -/
structure OneMore (catalog : Catalog) (rule : StoredRule) (next : Catalog) : Prop where
  rules : next.rules.Perm (rule :: catalog.rules)
  missing : catalog.get? rule.id = none
  found : next.get? rule.id = some rule
  others : ∀ id, id ≠ rule.id → next.get? id = catalog.get? id

theorem without_of_get?_eq_none (h : catalog.get? id = none) :
    catalog.without id = catalog.rules := by
  rw [without, List.filter_eq_self]
  intro rule hrule
  simpa using List.find?_eq_none.1 h rule hrule

/-- A rule that is inserted under a new id is one rule more. -/
theorem oneMore_insert (h : catalog.get? rule.id = none) :
    catalog.OneMore rule (catalog.insert rule) where
  rules := by
    rw [insert, without_of_get?_eq_none h]
    exact List.perm_append_singleton _ _
  missing := h
  found := by rw [get?_insert, if_pos rfl]
  others id hid := by rw [get?_insert, if_neg hid]

theorem latest?_insert (catalog : Catalog) (rule : StoredRule) :
    (catalog.insert rule).latest? = some rule := by
  rw [latest?]
  exact get?_insert.trans (if_pos rfl)

theorem Distinct.perm_without (h : catalog.Distinct) (hget : catalog.get? id = some rule) :
    catalog.rules.Perm (rule :: catalog.without id) := by
  obtain rfl := id_of_get? hget
  have hnodup : catalog.rules.Nodup := List.Nodup.of_map _ h
  have hrest : (rule :: catalog.without rule.id).Nodup :=
    List.nodup_cons.2 ⟨fun hmem => (mem_without.1 hmem).2 rfl, hnodup.filter _⟩
  refine (List.perm_ext_iff_of_nodup hnodup hrest).2 fun other => ?_
  rw [List.mem_cons, mem_without]
  constructor
  · intro hother
    by_cases hid : other.id = rule.id
    · exact .inl (Option.some.inj ((hid ▸ h.mem_iff.1 hother).symm.trans hget))
    · exact .inr ⟨hother, hid⟩
  · rintro (rfl | ⟨hother, -⟩)
    · exact h.mem_iff.2 hget
    · exact hother

/-- Before a rule is taken out there is one rule more. -/
theorem Distinct.oneMore_without (h : catalog.Distinct) (hget : catalog.get? id = some rule)
    (hrules : next.rules = catalog.without id) : next.OneMore rule catalog := by
  have hid := id_of_get? hget
  refine ⟨hrules ▸ h.perm_without hget, ?_, hid ▸ hget, fun other hother => ?_⟩
  · rw [get?_of_rules_eq hrules, if_pos hid]
  · rw [get?_of_rules_eq hrules, if_neg (hid ▸ hother)]

end Catalog

namespace Service

variable {limits : Limits} {catalog next : Catalog} {request : Request} {fallback : Fallback}
  {outcome : Except Failure Answer} {answer : Answer} {id : String}

/-! ## Which requests change a catalog -/

/-- Whether a request that has ended so may have changed the catalog. -/
def Request.MayChange : Request → Except Failure Answer → Prop
  | .insert _, _ | .clear, _ => True
  | .create .., .ok _ | .remove _, .ok _ => True
  | _, _ => False

/-- **All other requests leave the catalog as it was.** -/
theorem eq_of_not_mayChange (h : (serve fallback limits request).on catalog = (outcome, next))
    (hnot : ¬request.MayChange outcome) : next = catalog := by
  cases request with
  | insert rule | clear => exact absurd trivial hnot
  | create id now text =>
    rw [on_serve_create] at h
    cases hcompile : compile limits text with
    | error failure =>
      rw [hcompile] at h
      exact (Prod.mk.inj h).2.symm
    | ok tree =>
      rw [hcompile] at h
      obtain ⟨rfl, -⟩ := Prod.mk.inj h
      exact absurd trivial hnot
  | remove id =>
    rw [on_serve_remove] at h
    cases hget : catalog.get? id with
    | none =>
      rw [hget] at h
      exact (Prod.mk.inj h).2.symm
    | some rule =>
      rw [hget] at h
      obtain ⟨rfl, -⟩ := Prod.mk.inj h
      exact absurd trivial hnot
  | _ =>
    rw [on_serve fallback limits catalog fun _ => Request.noConfusion] at h
    exact (Prod.mk.inj h).2.symm

theorem oneMore_of_create {now : Timestamp} {text : String}
    (h : (serve fallback limits (.create id now text)).on catalog = (.ok answer, next))
    (hnew : catalog.get? id = none) :
    ∃ rule, answer = .rule rule ∧ rule.id = id ∧ rule.ruleText = text ∧
      compile limits text = .ok rule.tree ∧ catalog.OneMore rule next ∧
      next.latest? = some rule := by
  rw [on_serve_create] at h
  cases hcompile : compile limits text with
  | error failure =>
    rw [hcompile] at h
    exact nomatch (Prod.mk.inj h).1
  | ok tree =>
    rw [hcompile] at h
    obtain ⟨hanswer, rfl⟩ := Prod.mk.inj h
    obtain rfl := Except.ok.inj hanswer
    exact ⟨⟨id, text, tree, now⟩, rfl, rfl, rfl, rfl, Catalog.oneMore_insert hnew,
      Catalog.latest?_insert ..⟩

theorem oneMore_of_remove (hdistinct : catalog.Distinct)
    (h : (serve fallback limits (.remove id)).on catalog = (.ok answer, next)) :
    ∃ rule, answer = .rule rule ∧ catalog.get? id = some rule ∧ next.OneMore rule catalog ∧
      (catalog.latestId ≠ some id → next.latestId = catalog.latestId) := by
  rw [on_serve_remove] at h
  cases hget : catalog.get? id with
  | none =>
    rw [hget] at h
    exact nomatch (Prod.mk.inj h).1
  | some rule =>
    rw [hget] at h
    obtain ⟨hanswer, rfl⟩ := Prod.mk.inj h
    obtain rfl := Except.ok.inj hanswer
    exact ⟨rule, rfl, rfl, hdistinct.oneMore_without hget rfl, fun hlatest => if_neg hlatest⟩

/-! ## What a request leaves as it is -/

/-- **Failures and reads leave the catalog untouched**, in every catalog that requests to services
lead to. A rule that is created under a new id is added and is the latest one, and one that is taken
away is the one that was stored; no other rule is changed by either. A creation succeeds if its text
compiles and a removal if its rule is there. `respond` serves requests so, and wherever they lead is
a catalog that requests lead to. -/
theorem serve_frame (requests : List (Limits × Request)) (catalog : Catalog)
    (hrun : Run .empty requests catalog) (fallback : Fallback) (limits : Limits) :
    (∀ request outcome next, (serve fallback limits request).on catalog = (outcome, next) →
      ¬request.MayChange outcome → next = catalog) ∧
    (∀ id now text answer next, catalog.get? id = none →
      (serve fallback limits (.create id now text)).on catalog = (.ok answer, next) →
      ∃ rule, answer = .rule rule ∧ rule.id = id ∧ rule.ruleText = text ∧
        compile limits text = .ok rule.tree ∧ catalog.OneMore rule next ∧
        next.latest? = some rule) ∧
    (∀ id answer next, (serve fallback limits (.remove id)).on catalog = (.ok answer, next) →
      ∃ rule, answer = .rule rule ∧ catalog.get? id = some rule ∧ next.OneMore rule catalog ∧
        (catalog.latestId ≠ some id → next.latestId = catalog.latestId)) ∧
    (∀ id now text tree, compile limits text = .ok tree →
      ∃ answer, ((serve fallback limits (.create id now text)).on catalog).1 = .ok answer) ∧
    (∀ id rule, catalog.get? id = some rule →
      ∃ answer, ((serve fallback limits (.remove id)).on catalog).1 = .ok answer) ∧
    ∀ request,
      Run .empty (requests ++ [(limits, request)]) ((serve fallback limits request).on catalog).2 ∧
      (serve .lastListed limits request).on catalog = respond limits catalog request := by
  have hdistinct := hrun.distinct Catalog.distinct_empty
  refine ⟨fun _ _ _ h => eq_of_not_mayChange h, fun _ _ _ _ _ hnew h => oneMore_of_create h hnew,
    fun _ _ _ h => oneMore_of_remove hdistinct h, fun id now text tree hcompile => ?_,
    fun id rule hget => ?_, fun request => ⟨?_, on_serve_lastListed limits catalog request⟩⟩
  · rw [on_serve_create, hcompile]
    exact ⟨_, rfl⟩
  · rw [on_serve_remove, hget]
    exact ⟨_, rfl⟩
  · exact hrun.step (serves_serve fallback limits catalog request)

theorem compile_guarded : compile guardedLimits "a > 1" =
    .error (.validation (.unknownAttribute "a")) := by decide +kernel

/-- The catalog of one flat rule: the refused text and the removal of a rule that is not there leave
it as it is, a second rule is added to it, and the flat one is taken out of it. -/
theorem serve_frame_flatStored :
    let catalog := Catalog.empty.insert (flatStored 1)
    Run .empty [(.default, .insert (flatStored 1))] catalog ∧
      (serve .lastListed guardedLimits (.create "new" ⟨1, 0⟩ "a > 1")).on catalog =
        (.error (.validation (.unknownAttribute "a")), catalog) ∧
      (serve .lastListed .default (.remove "new")).on catalog =
        (.error (.ruleNotFound "new"), catalog) ∧
      (∃ rule next, (serve .lastListed .default (.create "new" ⟨1, 0⟩
          (RuleTree.flatRule 1).display)).on catalog = (.ok (.rule rule), next) ∧
        catalog.get? "new" = none ∧ catalog.OneMore rule next ∧ next.latest? = some rule) ∧
      ∃ next, (serve .lastListed .default (.remove "flat")).on catalog =
        (.ok (.rule (flatStored 1)), next) ∧ next.OneMore (flatStored 1) catalog := by
  intro catalog
  have hrun : Run .empty [(.default, .insert (flatStored 1))] catalog :=
    Run.start.step (.changed rfl (.insert _))
  have hflat : catalog.get? "flat" = some (flatStored 1) := rfl
  have hnew : catalog.get? "new" = none := rfl
  obtain ⟨hguarded, -⟩ := serve_frame _ catalog hrun .lastListed guardedLimits
  obtain ⟨hframe, hcreate, hremove, hcreated, hremoved, -⟩ :=
    serve_frame _ catalog hrun .lastListed .default
  refine ⟨hrun, ?_, ?_, ?_, ?_⟩
  · have hfails : ((serve .lastListed guardedLimits (.create "new" ⟨1, 0⟩ "a > 1")).on catalog).1 =
        .error (.validation (.unknownAttribute "a")) := by
      rw [on_serve_create, compile_guarded]
    exact Prod.ext hfails (hguarded (.create ..) _ _ (Prod.ext hfails rfl) id)
  · have hfails : ((serve .lastListed .default (.remove "new")).on catalog).1 =
        .error (.ruleNotFound "new") := by
      rw [on_serve_remove, hnew]
    exact Prod.ext hfails (hframe (.remove _) _ _ (Prod.ext hfails rfl) id)
  · obtain ⟨answer, hanswer⟩ :=
      hcreated "new" ⟨1, 0⟩ _ _ (compile_flatRule .default 1 (by decide) rfl)
    obtain ⟨rule, rfl, -, -, -, hmore, hlatest⟩ := hcreate "new" _ _ _ _ hnew (Prod.ext hanswer rfl)
    exact ⟨rule, _, Prod.ext hanswer rfl, hnew, hmore, hlatest⟩
  · obtain ⟨answer, hanswer⟩ := hremoved "flat" _ hflat
    obtain ⟨rule, rfl, hfound, hmore, -⟩ := hremove "flat" _ _ (Prod.ext hanswer rfl)
    obtain rfl := Option.some.inj (hflat.symm.trans hfound)
    exact ⟨_, Prod.ext hanswer rfl, hmore⟩

end Service

end Eligibility
