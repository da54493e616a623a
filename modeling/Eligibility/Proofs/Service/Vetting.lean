import Eligibility.Proofs.Service.Combining
import Eligibility.Proofs.Service.Run
/-!
# The rules in a shared catalog are vetted

Neither `combineRules` nor `evaluateRule` looks at the fields of the rules that it takes from the
catalog, nor at their texts. That they keep to the limits is an invariant of the catalog: if rules
come in by `createRule` only (`serves_createRule`), every rule in it is the one that its text
writes, and one of the services that share the catalog has accepted that text (`vetted_of_run`).

With two services of different limits a combined rule may read what either of them allows. Its depth
is within the limit of the service that combines (`depth_le_of_combine`).
-/

namespace Eligibility

/-- A service with these limits accepts a rule as a text. -/
structure Limits.Accepts (limits : Limits) (rule : StoredRule) : Prop where
  length_le : rule.ruleText.utf8ByteSize ≤ limits.maxRuleLength
  nesting_le : ∃ tokens, Token.scan rule.ruleText = .ok tokens ∧
    Token.nestingDepth tokens ≤ limits.maxNestingDepth
  allows : ∀ field ∈ rule.tree.fields, limits.allows field = true

namespace Service

variable {limits a b : Limits} {catalog : Catalog} {tree : RuleTree} {rule : StoredRule}

/-! ## Rules that come in -/

theorem compile_and_accepts_of_compile (h : compile limits rule.ruleText = .ok rule.tree) :
    RuleTree.compile rule.ruleText = .ok rule.tree ∧ limits.Accepts rule := by
  obtain ⟨hlength, tokens, hscan, hnesting, hread, hfields⟩ := compile_eq_ok_iff.1 h
  refine ⟨?_, Limits.checkLength_eq_ok_iff.1 hlength,
    ⟨tokens, hscan, Limits.checkNesting_eq_ok_iff.1 hnesting⟩, fun field hfield => ?_⟩
  · rw [RuleTree.compile, hscan]
    exact hread
  · obtain ⟨c, hc, rfl⟩ := RuleTree.mem_fields.1 hfield
    exact Limits.checkFields_eq_ok_iff.1 hfields c hc

/-- A rule that a request inserts is handed in as it is, or the service has compiled it. -/
theorem Request.compile_of_change? {request : Request}
    (h : request.change? limits = some (.insert rule)) :
    request = .insert rule ∨ Service.compile limits rule.ruleText = .ok rule.tree := by
  cases request with
  | create id now text =>
    rw [Request.change?] at h
    split at h
    · rename_i tree hcompile
      obtain rfl := Catalog.Change.insert.inj (Option.some.inj h)
      exact .inr hcompile
    · cases h
  | insert other =>
    obtain rfl := Catalog.Change.insert.inj (Option.some.inj h)
    exact .inl rfl
  | _ => cases h

/-- A rule that `createRule` stores comes in by a request. -/
theorem serves_createRule {id text : String} {now : Timestamp} {next : Catalog}
    (h : createRule limits catalog id now text = .ok (rule, next)) :
    Serves limits catalog (.create id now text) next := by
  have hnext : (respond limits catalog (.create id now text)).2 = next := by
    rw [respond, h, respond.storing]
  exact hnext ▸ serves_respond limits catalog _

/-! ## The shared catalog -/

/-- Requests to two services that share a catalog, where no rule is handed in but as a text. -/
def Shared (a b : Limits) (requests : List (Limits × Request)) : Prop :=
  ∀ entry ∈ requests, (entry.1 = a ∨ entry.1 = b) ∧ ∀ rule, entry.2 ≠ .insert rule

/-- A rule is the one that its text writes, and one of two services accepts the text. -/
def Vetted (a b : Limits) (rule : StoredRule) : Prop :=
  RuleTree.compile rule.ruleText = .ok rule.tree ∧ (a.Accepts rule ∨ b.Accepts rule)

/-- **Every rule in a shared catalog is vetted.** -/
theorem vetted_of_run {requests : List (Limits × Request)} (hrun : Run .empty requests catalog)
    (hshared : Shared a b requests) {id : String} (hfound : catalog.get? id = some rule) :
    Vetted a b rule := by
  refine hrun.forall_found (fun id rule h => nomatch h) (fun entry hentry rule hinsert => ?_)
    id rule hfound
  obtain ⟨hservice, hnone⟩ := hshared entry hentry
  obtain hhanded | hcompile := Request.compile_of_change? hinsert
  · exact absurd hhanded (hnone rule)
  · obtain ⟨hread, haccepts⟩ := compile_and_accepts_of_compile hcompile
    refine ⟨hread, hservice.imp ?_ ?_⟩
    · rintro rfl
      exact haccepts
    · rintro rfl
      exact haccepts

theorem Vetted.allows (h : Vetted a b rule) {field : String} (hfield : field ∈ rule.tree.fields) :
    a.allows field = true ∨ b.allows field = true :=
  h.2.imp (fun haccepts => haccepts.allows field hfield) fun haccepts =>
    haccepts.allows field hfield

/-! ## Combining stored rules -/

/-- A rule combined of stored ones reads no field that none of these does. -/
theorem exists_stored_of_combineRules {connective : String} {ids : List String}
    (h : combineRules limits catalog connective ids = .ok tree) {field : String}
    (hfield : field ∈ tree.fields) :
    ∃ id rule, catalog.get? id = some rule ∧ field ∈ rule.tree.fields := by
  obtain ⟨rules, hrules, hcombined⟩ := Except.bind_eq_ok_iff.1 h
  obtain ⟨op, -, hcombine⟩ := Except.bind_eq_ok_iff.1 (combineWith_of_combine hcombined)
  obtain ⟨part, hpart, hfield⟩ := (RuleTree.mem_fields_of_combine hcombine).1 hfield
  obtain ⟨rule, hrule, rfl⟩ := List.mem_map.1 hpart
  obtain ⟨id, -, hrequire⟩ := Except.exists_of_mem_mapM hrules hrule
  exact ⟨id, rule, Catalog.require_eq_ok_iff.1 hrequire, hfield⟩

/-- **The rules in a catalog that two services share are vetted**, after every run of requests in
which rules come in as texts: every rule is found under its id, and what is found under an id has
that id, is the rule that its text writes, and one of the services accepts the text. So what any
service combines of stored rules is within its own limit of depth and reads fields that one of the
two allows. A run goes on with whatever a service is asked next, in the way `respond` serves it, and
so with every rule that `createRule` stores. -/
theorem shared_catalog_vetted (a b : Limits) (requests : List (Limits × Request))
    (catalog : Catalog) (hrun : Run .empty requests catalog) (hshared : Shared a b requests) :
    (∀ limits request,
      Run .empty (requests ++ [(limits, request)]) (respond limits catalog request).2) ∧
    (∀ limits id now text rule next, createRule limits catalog id now text = .ok (rule, next) →
      Run .empty (requests ++ [(limits, .create id now text)]) next) ∧
    (∀ rule ∈ catalog.rules, catalog.get? rule.id = some rule) ∧
    (∀ id rule, catalog.get? id = some rule → rule.id = id ∧
      RuleTree.compile rule.ruleText = .ok rule.tree ∧ (a.Accepts rule ∨ b.Accepts rule)) ∧
    ∀ limits connective ids tree, combineRules limits catalog connective ids = .ok tree →
      tree.depth ≤ limits.maxTreeDepth ∧
      (∀ field ∈ tree.fields, a.allows field = true ∨ b.allows field = true) ∧
      (a = b → ∀ field ∈ tree.fields, a.allows field = true) := by
  refine ⟨fun limits request => hrun.step (serves_respond limits catalog request),
    fun limits id now text rule next hcreated => hrun.step (serves_createRule hcreated),
    fun rule hrule => ?_, fun id rule hfound => ⟨?_, vetted_of_run hrun hshared hfound⟩,
    fun limits connective ids tree hcombined => ?_⟩
  · exact (hrun.distinct Catalog.distinct_empty).mem_iff.1 hrule
  · exact Catalog.id_of_get? hfound
  · have hallows : ∀ field ∈ tree.fields, a.allows field = true ∨ b.allows field = true := by
      intro field hfield
      obtain ⟨id, rule, hfound, hrule⟩ := exists_stored_of_combineRules hcombined hfield
      exact (vetted_of_run hrun hshared hfound).allows hrule
    refine ⟨?_, hallows, ?_⟩
    · obtain ⟨rules, -, hcombine⟩ := Except.bind_eq_ok_iff.1 hcombined
      exact depth_le_of_combine hcombine
    · rintro rfl field hfield
      exact (hallows field hfield).elim id id

/-- Requests to a service that allows the field `a` and to one that does not. Each is asked to store
a rule that reads this field. -/
def guardedRequests : List (Limits × Request) :=
  [] ++ [(guardedLimits, .create "refused" ⟨0, 0⟩ "a > 1")] ++
    [(.default, .create "flat" ⟨0, 0⟩ (RuleTree.flatRule 1).display)]

/-- A rule that only one of two services accepts is combined by the other, and is vetted. -/
theorem shared_catalog_vetted_guarded :
    ∃ catalog, Run .empty guardedRequests catalog ∧
      Shared .default guardedLimits guardedRequests ∧
      catalog.get? "flat" = some (flatStored 1) ∧
      (Limits.default.Accepts (flatStored 1) ∨ guardedLimits.Accepts (flatStored 1)) ∧
      ∃ tree, combineRules guardedLimits catalog "AND" ["flat", "flat"] = .ok tree ∧
        tree.depth ≤ 256 ∧ "a" ∈ tree.fields ∧ guardedLimits.allows "a" = false ∧
        (Limits.default.allows "a" = true ∨ guardedLimits.allows "a" = true) := by
  let first := (respond guardedLimits .empty (.create "refused" ⟨0, 0⟩ "a > 1")).2
  have hcompile := compile_flatRule .default 1 (by decide) rfl
  have hlast : (respond .default first
      (.create "flat" ⟨0, 0⟩ (RuleTree.flatRule 1).display)).2 = first.insert (flatStored 1) := by
    simp only [respond_catalog, Request.change?, hcompile]
    rfl
  have hrun : Run .empty guardedRequests (first.insert (flatStored 1)) :=
    hlast ▸ (Run.start.step (serves_respond _ _ _)).step (serves_respond _ _ _)
  have hshared : Shared .default guardedLimits guardedRequests := by
    intro entry hentry
    simp only [guardedRequests, List.nil_append, List.singleton_append, List.mem_cons,
      List.not_mem_nil, or_false] at hentry
    obtain rfl | rfl := hentry
    · exact ⟨.inr rfl, fun rule => Request.noConfusion⟩
    · exact ⟨.inl rfl, fun rule => Request.noConfusion⟩
  have hfound : (first.insert (flatStored 1)).get? "flat" = some (flatStored 1) := by
    rw [Catalog.get?_insert]
    rfl
  have hcombined : combineRules guardedLimits (first.insert (flatStored 1)) "AND" ["flat", "flat"] =
      .ok (.join .and (RuleTree.flatRule 1) (RuleTree.flatRule 1)) := by
    have hstored : ["flat", "flat"].mapM (first.insert (flatStored 1)).require =
        .ok [flatStored 1, flatStored 1] := by
      simp [Catalog.require_eq_ok_iff.2 hfound]
    have htold : RuleTree.combinedDepth [RuleTree.flatRule 1, RuleTree.flatRule 1] = some 3 := by
      simp [RuleTree.combinedDepth, RuleTree.depth_flatRule]
    rw [combineRules, hstored, Except.ok_bind]
    change combine guardedLimits "AND" [RuleTree.flatRule 1, RuleTree.flatRule 1] = _
    rw [combine, htold]
    rfl
  obtain ⟨-, -, -, hvetted, hcombine⟩ :=
    shared_catalog_vetted .default guardedLimits guardedRequests _ hrun hshared
  obtain ⟨-, -, haccepts⟩ := hvetted _ _ hfound
  obtain ⟨hdepth, hallows, -⟩ := hcombine _ _ _ _ hcombined
  have hfield : "a" ∈ (RuleTree.join .and (RuleTree.flatRule 1) (RuleTree.flatRule 1)).fields := by
    decide
  exact ⟨_, hrun, hshared, hfound, haccepts, _, hcombined, hdepth, hfield, by decide,
    hallows "a" hfield⟩

end Service

end Eligibility
